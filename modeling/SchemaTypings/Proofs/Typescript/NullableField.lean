/-
  SchemaTypings.Proofs.Typescript.NullableField

  A field of an object with null let in.  The null wrapper is made of the node and its description
  moves up to the wrapper, while the constraints stay with the member.  A property is documented by
  the note of its own node, so its type goes on with null, all names and declarations stay, and of
  the documentation the tags of constraints are lost.
-/
import Mathlib.Data.List.DropRight
import SchemaTypings.Proofs.Typescript.Notes
import SchemaTypings.Proofs.Typescript.Nulls

namespace SchemaTypings.Typescript

open Naming (Sanitizer)
open SchemaNode (IsDefinite)

/-! ## The note of a node that lets null in -/

/-- The constraints of the node stay with the member of the union that null is put into. -/
theorem note_withNull {n : SchemaNode} (hn : n.IsDefinite) (hseen : n.isNullable = false) :
    n.withNull.note = { n.note with constraints := [] } := by
  rw [SchemaNode.withNull_of_not_isNullable hn hseen]
  rfl

/-- The documentation lines of a note that are tags of constraints. -/
def constraintTags (config : Config) (note : Note) : List Line :=
  if config.writesComments then note.constraints.map fun (keyword, value) =>
    constraintLine keyword value
  else []

/-- The tags of constraints are the last documentation lines of a note. -/
theorem noteLines_eq_map_append (config : Config) (note : Note) :
    noteLines config note =
      (noteLines config { note with constraints := [] }).map (· ++ constraintTags config note) := by
  unfold noteLines constraintTags
  split
  · cases descriptionLines note.description with
    | error e => rfl
    | ok described => simp [Except.map]
  · rfl

theorem noteLines_without_constraints (config : Config) (note : Note) :
    noteLines config { note with constraints := [] } =
      (noteLines config note).map (·.rdrop (constraintTags config note).length) := by
  rw [noteLines_eq_map_append config note]
  cases noteLines config { note with constraints := [] } with
  | error e => rfl
  | ok described => simp [Except.map, List.rdrop]

theorem constraintTags_eq_nil_iff {config : Config} {note : Note} :
    constraintTags config note = [] ↔ config.writesComments = false ∨ note.constraints = [] := by
  rw [constraintTags]
  cases config.writesComments <;> simp

/-! ## The property -/

/-- The property with null let in.  Of its note the description is left. -/
def Property.withNull (p : Property) : Property :=
  { p with type := .union [p.type, .null], note := { p.note with constraints := [] } }

/-- The texts of the property with null let in: null comes behind the type, and the documentation is
cut by the given lines at its end. -/
def PropertyText.withNull (lost : List Line) (t : PropertyText) : PropertyText :=
  { t with doc := t.doc.rdrop lost.length, type := t.type ++ " | null".toList }

section
variable {node : SchemaNode} (hn : node.IsDefinite) (hseen : node.isNullable = false)
include hn hseen

/-- Null let in at one field changes the property of that field and nothing else, as the field uses
the same declarations and leaves the same names to the fields behind it. -/
theorem referFields_withNull (before after : List (Member SchemaNode)) (key : String)
    (optional : Bool) (parent : String) (names : Sanitizer) :
    referFields (before ++ ⟨key, optional, node.withNull⟩ :: after) parent names =
      (referFields (before ++ ⟨key, optional, node⟩ :: after) parent names).map
        (·.modify before.length Property.withNull) := by
  induction before generalizing names with
  | nil =>
    rw [List.nil_append, List.nil_append, referFields, referFields, refer_withNull hn hseen,
      note_withNull hn hseen]
    rfl
  | cons field before ih =>
    rw [List.cons_append, List.cons_append, referFields, referFields]
    simp only [Hoisted.andThen, ih, Hoisted.map, List.length_cons, List.modify_succ_cons]

end

/-- The note of the property at the place of a field is that of the field's node. -/
theorem note_getElem?_referFields (before after : List (Member SchemaNode)) (key : String)
    (optional : Bool) (node : SchemaNode) (parent : String) (names : Sanitizer) :
    ∃ p, (referFields (before ++ ⟨key, optional, node⟩ :: after) parent
      names).result[before.length]? = some p ∧ p.note = node.note := by
  have hnotes := congrArg (·[before.length]?)
    (notes_referFields (before ++ ⟨key, optional, node⟩ :: after) parent names)
  simpa using hnotes

theorem chars_union_null (t : TypeExpr) :
    (TypeExpr.union [t, .null]).chars = t.chars ++ " | null".toList := by
  simp [TypeExpr.chars, TypeExpr.partChars, Text.joinWith]

/-- Where a property lets null in, its texts do. -/
theorem propertyTexts_modify_withNull (config : Config) {properties : List Property} {i : Nat}
    {p : Property} (hp : properties[i]? = some p) :
    propertyTexts config (properties.modify i Property.withNull) =
      (propertyTexts config properties).map
        (·.modify i (PropertyText.withNull (constraintTags config p.note))) := by
  -- only the field at the place differs; the others are written alike
  induction properties generalizing i with
  | nil => cases hp
  | cons first rest ih =>
    cases i with
    | zero =>
      cases hp
      rw [List.modify_zero_cons, propertyTexts, propertyTexts, Property.withNull,
        noteLines_without_constraints]
      cases noteLines config p.note with
      | error e => rfl
      | ok doc =>
        cases propertyTexts config rest with
        | error e => rfl
        | ok texts => simp [Except.map, chars_union_null, PropertyText.withNull]
    | succ i =>
      rw [List.getElem?_cons_succ] at hp
      rw [List.modify_succ_cons, propertyTexts, propertyTexts, ih hp]
      cases noteLines config first.note with
      | error e => rfl
      | ok doc =>
        cases propertyTexts config rest with
        | error e => rfl
        | ok texts => simp [Except.map]

/-- The texts stand in the order of the properties. -/
theorem exists_of_getElem?_propertyTexts {config : Config} {properties : List Property} {i : Nat}
    {p : Property} (hp : properties[i]? = some p) {texts : List PropertyText}
    (h : propertyTexts config properties = .ok texts) :
    ∃ t, texts[i]? = some t ∧ noteLines config p.note = .ok t.doc := by
  induction properties generalizing i texts with
  | nil => cases hp
  | cons first rest ih =>
    obtain ⟨doc, more, hdoc, hmore, rfl⟩ := exists_of_propertyTexts_cons h
    cases i with
    | zero =>
      cases hp
      exact ⟨_, rfl, hdoc⟩
    | succ i =>
      rw [List.getElem?_cons_succ] at hp ⊢
      exact ih hp hmore

/-- A document with the keyword `nullable` put in, as the field of an object.  In every object, at
every place and for all names handed out before, the declarations that the field uses and the names
that are left stay as they were, and of the texts of the object's properties that of the field alone
changes: null comes behind its type, and its documentation is cut by the tags of the constraints.
So the field is documented as before if it has no constraints or nothing is documented, and in no
other case. -/
theorem propertyTexts_of_nullable {entries : Entries Json}
    {external? : Option (Json → Except Fault Json)} {limit : Schema.ReferenceLimit}
    {node : SchemaNode} (hscalar : ∀ v ∈ entries.get? "nullable", v.isScalar = true)
    (h : Schema.ofDocument (.obj entries) external? limit = .ok node) (hn : node.IsDefinite)
    (hseen : node.isNullable = false) :
    ∃ nulled, Schema.ofDocument (.obj (entries.insert "nullable" (.bool true))) external? limit =
        .ok nulled ∧
      ∀ (before after : List (Member SchemaNode)) (key : String) (optional : Bool)
        (parent : String) (names : Sanitizer) (config : Config),
        let plain := referFields (before ++ ⟨key, optional, node⟩ :: after) parent names
        let widened := referFields (before ++ ⟨key, optional, nulled⟩ :: after) parent names
        widened.declarations = plain.declarations ∧ widened.names = plain.names ∧
        propertyTexts config widened.result = (propertyTexts config plain.result).map
          (·.modify before.length (PropertyText.withNull (constraintTags config node.note))) ∧
        ∀ texts, propertyTexts config plain.result = .ok texts →
          ∃ text ∈ texts[before.length]?,
            text.doc = (text.withNull (constraintTags config node.note)).doc ++
              constraintTags config node.note ∧
            ((text.withNull (constraintTags config node.note)).doc = text.doc ↔
              config.writesComments = false ∨ node.note.constraints = []) := by
  refine ⟨node.withNull, Schema.ofDocument_insert_nullable hscalar h, ?_⟩
  intro before after key optional parent names config plain widened
  have hfields : widened = plain.map (·.modify before.length Property.withNull) :=
    referFields_withNull hn hseen before after key optional parent names
  obtain ⟨p, hp, hnote⟩ :=
    note_getElem?_referFields before after key optional node parent names
  rw [hfields]
  refine ⟨rfl, rfl, ?_, fun texts htexts => ?_⟩
  · rw [← hnote]
    exact propertyTexts_modify_withNull config hp
  · obtain ⟨text, htext, hdoc⟩ := exists_of_getElem?_propertyTexts hp htexts
    refine ⟨text, htext, ?_⟩
    rw [hnote, noteLines_eq_map_append] at hdoc
    obtain ⟨described, -, hdoc⟩ := exists_of_map_eq_ok hdoc
    have hcut : (text.withNull (constraintTags config node.note)).doc = described := by
      simp [PropertyText.withNull, ← hdoc, List.rdrop]
    rw [hcut, ← hdoc, List.self_eq_append_right, constraintTags_eq_nil_iff]
    exact ⟨rfl, Iff.rfl⟩

/-- A string with a bound on its length. -/
def boundedDocument : Entries Json := [("type", .str "string"), ("minLength", .int 3)]

/-- The node of `boundedDocument`. -/
def boundedNode : SchemaNode := .primitive .string { constraints := [("minLength", .int 3)] }

/-- The texts of a field `a` with the node of `boundedDocument`. -/
def boundedText : PropertyText := ⟨["@minLength 3".toList], "a".toList, true, "string".toList⟩

/-- The bound is said of the string, and no more of the string or null. -/
theorem propertyTexts_of_nullable_bounded :
    Schema.ofDocument (.obj boundedDocument) none (.ofInt 16) = .ok boundedNode ∧
      boundedNode.IsDefinite ∧ boundedNode.isNullable = false ∧
      ∃ nulled, Schema.ofDocument (.obj (boundedDocument.insert "nullable" (.bool true))) none
          (.ofInt 16) = .ok nulled ∧
        propertyTexts .default (referFields [⟨"a", true, boundedNode⟩] "Foo" sanitizer).result =
          .ok [boundedText] ∧
        propertyTexts .default (referFields [⟨"a", true, nulled⟩] "Foo" sanitizer).result =
          .ok [⟨[], "a".toList, true, "string | null".toList⟩] := by
  have hnode : Schema.ofDocument (.obj boundedDocument) none (.ofInt 16) = .ok boundedNode := by
    cbv
  have hscalar : ∀ v ∈ boundedDocument.get? "nullable", v.isScalar = true := by
    simp [boundedDocument, Entries.get?_cons]
  have hdefinite : boundedNode.IsDefinite := by simp [boundedNode, IsDefinite]
  obtain ⟨nulled, hnulled, hfield⟩ := propertyTexts_of_nullable hscalar hnode hdefinite rfl
  obtain ⟨-, -, htexts, -⟩ := hfield [] [] "a" true "Foo" sanitizer .default
  have hplain : propertyTexts .default
      (referFields [⟨"a", true, boundedNode⟩] "Foo" sanitizer).result = .ok [boundedText] := by
    have htag : constraintLine "minLength" (.int 3) = "@minLength 3".toList := by decide +kernel
    have hkey : Naming.propertyKey "a" = "a" := by decide +kernel
    have hdoc : noteLines .default boundedNode.note = .ok ["@minLength 3".toList] :=
      congrArg (fun line => Except.ok [line]) htag
    rw [referFields, boundedNode, refer]
    simp only [Hoisted.andThen, referFields, Hoisted.plain, Hoisted.map, propertyTexts, hkey]
    rw [← boundedNode, hdoc]
    rfl
  refine ⟨hnode, hdefinite, rfl, nulled, hnulled, hplain, htexts.trans ?_⟩
  rw [List.nil_append, hplain]
  cbv

end SchemaTypings.Typescript
