/-
  SchemaTypings.Proofs.Typescript.RoundTrip

  The declarations for a node, read back as an environment and unfolded, give the type of the node,
  but for the names of fields that are identifiers with a line feed behind them: such a name is
  written as a bare key, and what is read there is the identifier alone.
-/
import SchemaTypings.Proofs.Typescript.Hoisting
import SchemaTypings.Json.Parser

namespace SchemaTypings.Typescript

/-! ## Names of fields -/

section
variable (p : String → Prop)

namespace Variant

mutual
/-- Whether something holds of all names of fields in a variant. -/
def AllNames : Variant → Prop
  | .object fields _ => AllNamesOfFields fields
  | .array s => AllNamesOfShape s
  | .record s => AllNamesOfShape s
  | _ => True

/-- Whether it holds of all names of fields in a type. -/
def AllNamesOfShape : List Variant → Prop
  | [] => True
  | v :: rest => v.AllNames ∧ AllNamesOfShape rest

/-- Whether it holds of the names of the fields and of all names in their types. -/
def AllNamesOfFields : List (Member (List Variant)) → Prop
  | [] => True
  | field :: rest => AllNamesOfField field ∧ AllNamesOfFields rest

/-- Whether it holds of the name of the field and of all names in its type. -/
def AllNamesOfField : Member (List Variant) → Prop
  | ⟨name, _, s⟩ => p name ∧ AllNamesOfShape s
end

variable {p}

theorem allNamesOfShape_iff {s : Shape} :
    AllNamesOfShape p s ↔ ∀ v ∈ s, v.AllNames p := by
  induction s with
  | nil => simp [AllNamesOfShape]
  | cons v rest ih => rw [AllNamesOfShape, ih, List.forall_mem_cons]

theorem allNamesOfShape_append {s t : Shape} :
    AllNamesOfShape p (s ++ t) ↔ AllNamesOfShape p s ∧ AllNamesOfShape p t := by
  simp only [allNamesOfShape_iff, List.forall_mem_append]

mutual
/-- What is the same has the same names. -/
theorem Same.allNames : (v : Variant) → {w : Variant} → v.Same w → v.AllNames p → w.AllNames p
  | .array s, w, h, hv => by
    cases w with
    | array t => exact allNames_of_same_shape s (same_array_iff.mp h) hv
    | _ => simp [Same] at h
  | .record s, w, h, hv => by
    cases w with
    | record t => exact allNames_of_same_shape s (same_record_iff.mp h) hv
    | _ => simp [Same] at h
  | .object fields _, w, h, hv => by
    cases w with
    | object others _ =>
      exact SameFields.allNames fields (sameFields_iff.mpr (same_object_iff.mp h).2) hv
    | _ => simp [Same] at h
  | .any, w, h, _ | .null, w, h, _ | .primitive _, w, h, _ | .literal _, w, h, _ => by
    cases w <;> simp [Same, AllNames] at h ⊢

theorem allNames_of_same_shape (s : List Variant) {t : Shape} (h : Shape.Same s t)
    (hs : AllNamesOfShape p s) : AllNamesOfShape p t := by
  rw [allNamesOfShape_iff]
  intro w hw
  obtain ⟨v, hmem, hsame⟩ := h.2 w hw
  exact allNames_of_mem s hs v hmem hsame

theorem allNames_of_mem : (s : List Variant) → AllNamesOfShape p s →
    ∀ v ∈ s, ∀ {w : Variant}, v.Same w → w.AllNames p
  | [], _ => by simp
  | v :: rest, h => List.forall_mem_cons.mpr
      ⟨fun hsame => Same.allNames v hsame h.1, allNames_of_mem rest h.2⟩

theorem SameFields.allNames : (fields : List (Member (List Variant))) →
    {others : List (Member (List Variant))} → SameFields fields others →
    AllNamesOfFields p fields → AllNamesOfFields p others
  | [], others, h, _ => by
    cases sameFields_iff.mp h
    trivial
  | field :: rest, others, h, hfields => by
    cases sameFields_iff.mp h with
    | cons hfield hrest =>
      exact ⟨SameField.allNames field hfield hfields.1,
        SameFields.allNames rest (sameFields_iff.mpr hrest) hfields.2⟩

theorem SameField.allNames : (field : Member (List Variant)) → {other : Member (List Variant)} →
    SameField field other → AllNamesOfField p field → AllNamesOfField p other
  | ⟨name, _, s⟩, ⟨_, _, t⟩, h, hfield => by
    obtain ⟨hname, -, hsame⟩ := sameField_iff.mp h
    cases hname
    exact ⟨hfield.1, allNames_of_same_shape s hsame hfield.2⟩
end

end Variant

end

/-- Whether something holds of the names of the fields that a node lists. -/
def FieldNames (p : String → Prop) : SchemaNode → Prop
  | .object fields _ _ => ∀ field ∈ fields, p field.name
  | _ => True

section
variable {p : String → Prop} {r r' : String → String}

open SchemaNode Variant

mutual
/-- The names in the type of a node are those that its fields are given. -/
theorem allNames_shapeWith : (node : SchemaNode) →
    (AllNamesOfShape p (shapeWith r node) ↔ node.Everywhere (FieldNames fun name => p (r name)))
  | .any _ | .null _ | .primitive _ _ => by
    simp [shapeWith, AllNamesOfShape, AllNames, FieldNames]
  | .literal value _ => by
    cases value <;> simp [shapeWith, Variant.ofLiteral, AllNamesOfShape, AllNames, FieldNames]
  | .array items _ => by
    rw [everywhere_array, ← allNames_shapeWith items]
    simp [shapeWith, AllNamesOfShape, AllNames, FieldNames]
  | .record values _ => by
    rw [everywhere_record, ← allNames_shapeWith values]
    simp [shapeWith, AllNamesOfShape, AllNames, FieldNames]
  | .union members _ => by
    rw [everywhere_union, ← allNames_memberShapes members]
    simp [shapeWith, FieldNames]
  | .object fields _ _ => by
    rw [everywhere_object, FieldNames, shapeWith, AllNamesOfShape, AllNames,
      allNames_fieldShapes fields, ← forall₂_and]
    exact and_iff_left trivial

theorem allNames_memberShapes : (members : List SchemaNode) →
    (AllNamesOfShape p (memberShapes r members) ↔
      ∀ member ∈ members, member.Everywhere (FieldNames fun name => p (r name)))
  | [] => by simp [memberShapes, AllNamesOfShape]
  | member :: rest => by
    rw [memberShapes, allNamesOfShape_append, allNames_shapeWith member,
      allNames_memberShapes rest, List.forall_mem_cons]

theorem allNames_fieldShapes : (fields : List (Member SchemaNode)) →
    (AllNamesOfFields p (fieldShapes r fields) ↔ ∀ field ∈ fields,
      p (r field.name) ∧ field.type.Everywhere (FieldNames fun name => p (r name)))
  | [] => by simp [fieldShapes, AllNamesOfFields]
  | ⟨name, optional, node⟩ :: rest => by
    rw [fieldShapes, AllNamesOfFields, fieldShape, AllNamesOfField, allNames_shapeWith node,
      allNames_fieldShapes rest, List.forall_mem_cons]
end

mutual
/-- Names of fields that are changed alike give the same type. -/
theorem shapeWith_congr : (node : SchemaNode) →
    node.Everywhere (FieldNames fun name => r name = r' name) → shapeWith r node = shapeWith r' node
  | .any _, _ | .null _, _ | .primitive _ _, _ | .literal _ _, _ => by simp [shapeWith]
  | .array items _, h => by
    rw [shapeWith, shapeWith, shapeWith_congr items (everywhere_array.mp h).2]
  | .record values _, h => by
    rw [shapeWith, shapeWith, shapeWith_congr values (everywhere_record.mp h).2]
  | .union members _, h => by
    rw [shapeWith, shapeWith, memberShapes_congr members (everywhere_union.mp h).2]
  | .object fields _ _, h => by
    obtain ⟨hnames, htypes⟩ := everywhere_object.mp h
    rw [shapeWith, shapeWith, fieldShapes_congr fields hnames htypes]

theorem memberShapes_congr : (members : List SchemaNode) →
    (∀ member ∈ members, member.Everywhere (FieldNames fun name => r name = r' name)) →
    memberShapes r members = memberShapes r' members
  | [], _ => rfl
  | member :: rest, h => by
    rw [List.forall_mem_cons] at h
    rw [memberShapes, memberShapes, shapeWith_congr member h.1, memberShapes_congr rest h.2]

theorem fieldShapes_congr : (fields : List (Member SchemaNode)) →
    (∀ field ∈ fields, r field.name = r' field.name) →
    (∀ field ∈ fields, field.type.Everywhere (FieldNames fun name => r name = r' name)) →
    fieldShapes r fields = fieldShapes r' fields
  | [], _, _ => rfl
  | ⟨_, _, node⟩ :: rest, hnames, htypes => by
    rw [List.forall_mem_cons] at hnames htypes
    rw [fieldShapes, fieldShapes, fieldShape, fieldShape, shapeWith_congr node htypes.1, hnames.1,
      fieldShapes_congr rest hnames.2 htypes.2]
end

end

/-- Whether a name is an identifier with a line feed behind it. -/
def IsFedIdentifier (name : String) : Prop :=
  Naming.isIdentifier name.toList = true ∧ name.toList.getLast? = some '\n'

theorem fieldNameAsRead_eq_self_iff (name : String) :
    fieldNameAsRead name = name ↔ ¬IsFedIdentifier name := by
  rw [IsFedIdentifier, ← Naming.nameAsRead_eq_self_iff, fieldNameAsRead]
  constructor
  · intro h
    rw [← String.toList_ofList (l := Naming.nameAsRead name.toList), h]
  · intro h
    rw [h, String.ofList_toList]

theorem fieldNameAsRead_idem (name : String) :
    fieldNameAsRead (fieldNameAsRead name) = fieldNameAsRead name := by
  rw [fieldNameAsRead, fieldNameAsRead, String.toList_ofList, Naming.nameAsRead_nameAsRead]

/-- A type that is the same as the one read is the type of the node exactly if no name of a field is
lost. -/
theorem same_shapeOf_iff {shape : Shape} {node : SchemaNode}
    (h : Shape.Same shape (shapeAsRead node)) :
    Shape.Same shape (shapeOf node) ↔
      node.Everywhere (FieldNames fun name => ¬IsFedIdentifier name) := by
  simp only [← fieldNameAsRead_eq_self_iff]
  constructor
  · intro hsame
    -- All names that are read are read as themselves, and so are those of the node.
    have hread : Variant.AllNamesOfShape (fun name => fieldNameAsRead name = name)
        (shapeAsRead node) := by
      rw [allNames_shapeWith]
      intro n _
      cases n with
      | object fields _ _ => exact fun field _ => fieldNameAsRead_idem field.name
      | _ => trivial
    have hshape := Variant.allNames_of_same_shape _ (Variant.same_symm_of_shape _ h) hread
    have hnode := Variant.allNames_of_same_shape _ hsame hshape
    rwa [shapeOf, allNames_shapeWith] at hnode
  · intro hnames
    have hshape : shapeAsRead node = shapeOf node := shapeWith_congr node hnames
    rw [← hshape]
    exact h

/-! ## Reading back -/

variable {config : Config} {doc : List Line} {node : SchemaNode} {name : String}

/-- The declarations of a node that can be rendered are read as an environment in which the first
name stands for the type of the node as it is read. -/
theorem readDeclarations_declarations {texts : List DeclarationText} (hnode : IsRenderable node)
    (h : declarationTexts config doc (declarations node name) = .ok texts) :
    ∃ env, readDeclarations texts = some env ∧ env.keys.Nodup ∧ env.IsClosed ∧
      ∃ shape, env.unfoldFirst = some shape ∧ Shape.Same shape (shapeAsRead node) := by
  obtain ⟨hnodup, hclosed, first, rest, hds, hdenotes⟩ := declarations_spec node name hnode
  generalize declarations node name = ds at *
  have hread := readDeclarations_of_declarationTexts (fun d hd t ht => (hclosed d hd t ht).1) h
  have hkeys : Entries.keys (ds.map Declaration.read) = ds.map Declaration.name := by
    rw [Entries.keys, List.map_map]
    rfl
  rw [← hkeys] at hnodup
  -- no name is declared twice, so that each is found with its own body
  have hcovers : Covers (ds.map Declaration.read) ds :=
    fun d hd => Entries.get?_of_mem hnodup (List.mem_map_of_mem hd)
  refine ⟨_, hread, hnodup, ?_, ?_⟩
  · intro name body hmem used hused
    obtain ⟨d, hd, heq⟩ := List.mem_map.mp hmem
    cases heq
    rw [names_read, List.mem_flatMap] at hused
    obtain ⟨t, ht, hused⟩ := hused
    rw [hkeys]
    exact (hclosed d hd t ht).2 used hused
  · obtain ⟨shape, hshape, hsame⟩ := hdenotes.exists_unfold (ds.map Declaration.read) ds.length
      hcovers (Nat.le_refl _)
    refine ⟨shape, ?_, hsame⟩
    rw [TypeExpr.unfold, ← List.length_map (f := Declaration.read)] at hshape
    rw [hds] at hshape ⊢
    exact hshape

/-- The declarations for a converted document are read as an environment of distinct names in which
all names that are used are declared, and the first name stands for the type of the node; names of
fields that are identifiers with a line feed behind them are lost, and nothing else is. -/
theorem readDeclarations_ofDocument {document : Json} {external? : Option (Json → Except Fault Json)}
    {limit : Schema.ReferenceLimit} (h : Schema.ofDocument document external? limit = .ok node)
    (hliterals : node.Everywhere HasReadableLiteral) {texts : List DeclarationText}
    (htexts : declarationTexts config doc (declarations node name) = .ok texts) :
    ∃ env, readDeclarations texts = some env ∧ env.keys.Nodup ∧ env.IsClosed ∧
      ∃ shape, env.unfoldFirst = some shape ∧ Shape.Same shape (shapeAsRead node) ∧
        (Shape.Same shape (shapeOf node) ↔
          node.Everywhere (FieldNames fun name => ¬IsFedIdentifier name)) := by
  have hnode : IsRenderable node := ⟨Schema.everywhere_hasMembers_of_ofDocument h, hliterals⟩
  obtain ⟨env, hread, hnodup, hclosed, shape, hshape, hsame⟩ :=
    readDeclarations_declarations hnode htexts
  exact ⟨env, hread, hnodup, hclosed, shape, hshape, hsame, same_shapeOf_iff hsame⟩

/-- An object with an object in it, one key of which is no identifier. -/
def ownerDocument : Json :=
  .obj [("type", .str "object"), ("properties", .obj
    [("owner", .obj [("type", .str "object"),
      ("properties", .obj [("display name", .obj [("const", .str "x")])])])])]

/-- What the document is converted to. -/
def ownerNode : SchemaNode :=
  .object [⟨"owner", true, .object [⟨"display name", true, .literal (.str "x") {}⟩] false {}⟩]
    false {}

theorem claim_foo : sanitizer.claim "Foo" = ("Foo", ⟨vocabulary, ["Foo"]⟩) := by
  have hword : Naming.firstFree [] (Naming.sanitize vocabulary "Foo" .pascal) = "Foo" := by
    decide +kernel
  rw [Naming.Sanitizer.claim, sanitizer, hword]

theorem declarations_ownerNode : declarations ownerNode "Foo" =
    [⟨"Foo", .interface [⟨"owner", true, .named "FooOwner", {}⟩] false⟩,
      ⟨"FooOwner", .interface [⟨"display name", true, .literal (.str "x"), {}⟩] false⟩] := by
  have howner : Naming.Sanitizer.claim ⟨vocabulary, ["Foo"]⟩ (fieldHint "Foo" "owner") =
      ("FooOwner", ⟨vocabulary, ["FooOwner", "Foo"]⟩) := by
    have hword : Naming.firstFree ["Foo"]
        (Naming.sanitize vocabulary (fieldHint "Foo" "owner") .pascal) = "FooOwner" := by
      decide +kernel
    rw [Naming.Sanitizer.claim, hword]
  simp only [declarations, ownerNode, claim_foo, bodyOf, referFields, refer, howner]
  rfl

theorem readDeclarations_ownerDocument :
    Schema.ofDocument ownerDocument none (.ofInt 16) = .ok ownerNode ∧
      ∃ texts env shape, declarationTexts {} [] (declarations ownerNode "Foo") = .ok texts ∧
        readDeclarations texts = some env ∧ env.IsClosed ∧ env.unfoldFirst = some shape ∧
          Shape.Same shape (shapeOf ownerNode) := by
  have hconvert : Schema.ofDocument ownerDocument none (.ofInt 16) = .ok ownerNode := by cbv
  have hliterals : ownerNode.Everywhere HasReadableLiteral := by
    simp [ownerNode, SchemaNode.everywhere_object, HasReadableLiteral, isReadableLiteral]
  have hnames : ownerNode.Everywhere (FieldNames fun name => ¬IsFedIdentifier name) := by
    simp [ownerNode, SchemaNode.everywhere_object, FieldNames, IsFedIdentifier]
  obtain ⟨texts, htexts⟩ :
      ∃ texts, declarationTexts {} [] (declarations ownerNode "Foo") = .ok texts := by
    rw [declarations_ownerNode]
    exact ⟨_, rfl⟩
  obtain ⟨env, hread, -, hclosed, shape, hshape, -, hiff⟩ :=
    readDeclarations_ofDocument hconvert hliterals htexts
  exact ⟨hconvert, texts, env, shape, htexts, hread, hclosed, hshape, hiff.mpr hnames⟩

/-- An object with an identifier and a line feed for a key. -/
def fedDocument : Json :=
  .obj [("type", .str "object"), ("properties", .obj [("a\n", .obj [("type", .str "string")])])]

/-- What the document is converted to. -/
def fedNode : SchemaNode := .object [⟨"a\n", true, .primitive .string {}⟩] false {}

theorem declarations_fedNode : declarations fedNode "Foo" =
    [⟨"Foo", .interface [⟨"a\n", true, .primitive .string, {}⟩] false⟩] := by
  simp only [declarations, fedNode, claim_foo, bodyOf, referFields, refer]
  rfl

/-- The field is read without the line feed in its name. -/
theorem readDeclarations_fedDocument :
    Schema.ofDocument fedDocument none (.ofInt 16) = .ok fedNode ∧
      ∃ texts env shape, declarationTexts {} [] (declarations fedNode "Foo") = .ok texts ∧
        readDeclarations texts = some env ∧ env.unfoldFirst = some shape ∧
          shape = [.object [⟨"a", true, [.primitive .string]⟩] false] ∧
            ¬Shape.Same shape (shapeOf fedNode) := by
  rw [declarations_fedNode]
  refine ⟨by cbv, [⟨[], "Foo".toList, .interface [⟨[], ['a', '\n'], true, "string".toList⟩] none⟩],
    [("Foo", .object [⟨"a", true, .primitive .string⟩] false)],
    [.object [⟨"a", true, [.primitive .string]⟩] false], rfl, rfl, rfl, rfl, ?_⟩
  intro h
  have hread : Variant.AllNamesOfShape (fun name => name = "a")
      [.object [⟨"a", true, [.primitive .string]⟩] false] := by
    simp [Variant.AllNamesOfShape, Variant.AllNames, Variant.AllNamesOfFields,
      Variant.AllNamesOfField]
  have hname := (Variant.allNames_of_same_shape _ h hread).1.1.1
  revert hname
  decide

end SchemaTypings.Typescript
