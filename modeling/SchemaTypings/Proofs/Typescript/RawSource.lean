/-
  SchemaTypings.Proofs.Typescript.RawSource

  What is written for a node reads the parts of its kind and takes them to be there.  In a converted
  node they are: its raw node is written as the node itself, without a part being missed, and all
  that can be in the way are descriptions that are no texts and integers of too many digits.
-/
import SchemaTypings.Proofs.Schema.Alike
import SchemaTypings.Proofs.Schema.RawParts
import SchemaTypings.Proofs.Typescript.Slots
import SchemaTypings.Proofs.Typescript.Writable
import SchemaTypings.Typescript.RawSource

namespace SchemaTypings.Typescript.Raw

open Naming (Sanitizer)
open SchemaNode (toRaw toRaw_object toRaw_union)

/-! ## What is declared on its own -/

mutual
theorem holdsObject_toRaw (node : SchemaNode) :
    holdsObject node.toRaw = Typescript.holdsObject node := by
  match node with
  | .object fields isOpen note =>
    rw [toRaw_object, holdsObject, Typescript.holdsObject]
    cases fields <;> rfl
  | .array items note =>
    show (anyHoldsObject [] || someHoldsObject (some items.toRaw) || someHoldsObject none) = _
    rw [anyHoldsObject, someHoldsObject, someHoldsObject, holdsObject_toRaw items,
      Typescript.holdsObject, Bool.false_or, Bool.or_false]
  | .record values note =>
    show (anyHoldsObject [] || someHoldsObject none || someHoldsObject (some values.toRaw)) = _
    rw [anyHoldsObject, someHoldsObject, someHoldsObject, holdsObject_toRaw values,
      Typescript.holdsObject, Bool.false_or, Bool.false_or]
  | .union members note =>
    rw [toRaw_union]
    show (anyHoldsObject (members.map toRaw) || someHoldsObject none || someHoldsObject none) = _
    rw [anyHoldsObject_toRaw members, someHoldsObject, Typescript.holdsObject, Bool.or_false,
      Bool.or_false]
  | .primitive kind note => cases kind <;> rfl
  | .any _ | .null _ | .literal _ _ => rfl

theorem anyHoldsObject_toRaw (members : List SchemaNode) :
    anyHoldsObject (members.map toRaw) = Typescript.anyHoldsObject members := by
  match members with
  | [] => rfl
  | member :: rest =>
    rw [List.map_cons, anyHoldsObject, holdsObject_toRaw member, anyHoldsObject_toRaw rest,
      Typescript.anyHoldsObject]
end

/-! ## Outcomes -/

/-- A result, if what it is checked for is all right. -/
def checked {α : Type} (check : Except Fault Unit) (result : α) : Except Failure α :=
  match check with
  | .error e => .error (.fault e)
  | .ok _ => .ok result

theorem map_checked {α β : Type} (check : Except Fault Unit) (result : α) (f : α → β) :
    (checked check result).map f = checked check (f result) := by
  cases check <;> rfl

/-! ## One raw node -/

section
variable {config : Config} {n : RawNode} (hint : String) (names : Sanitizer)

theorem refer_of_isEmptyObject (h : isEmptyObject n = true) :
    refer config n hint names = .ok (.plain .emptyObject names) := by
  rw [refer, if_pos h]

theorem refer_of_otherMember? (hempty : isEmptyObject n = false) {only : RawNode}
    (h : otherMember? n = some only) :
    refer config n hint names =
      (refer config only hint names).map (·.map fun type => .union [type, .null]) := by
  rw [refer, hempty, if_neg Bool.false_ne_true]
  split
  · next other hother =>
    cases h.symm.trans hother
    rfl
  · next hnone => cases h.symm.trans hnone

theorem refer_of_not_otherMember? (hempty : isEmptyObject n = false) (h : otherMember? n = none) :
    refer config n hint names =
      if isDeclared n then
        (bodyOf config n (names.claim hint).1 (names.claim hint).2).map
          (·.declare (names.claim hint).1)
      else structureOf config n hint names := by
  rw [refer, hempty, if_neg Bool.false_ne_true]
  split
  · next other hother => cases h.symm.trans hother
  · rfl

end

/-! ## The raw node of a node -/

theorem otherMember?_union (members : List SchemaNode) (note : Note) :
    otherMember? (SchemaNode.union members note).toRaw = (nullableMember? members).map toRaw := by
  have hfilter : (members.map toRaw).filter (!·.isNull) =
      (members.filter (!·.isNull)).map toRaw := by
    rw [List.filter_map]
    exact congrArg (List.map toRaw) (List.filter_congr fun m _ => by simp)
  have hnullable : (SchemaNode.union members note).toRaw.isNullable =
      members.any SchemaNode.isNull := SchemaNode.isNullable_toRaw _
  rw [otherMember?, hnullable, nullableMember?, toRaw_union]
  dsimp only
  rw [hfilter, decide_eq_true rfl, Bool.true_and]
  split
  · -- Exactly one type besides null is told from none and from several.
    cases members.filter (!·.isNull) with
    | nil => rfl
    | cons first rest => cases rest <;> rfl
  · rfl

theorem otherMember?_of_ne_union {node : SchemaNode} (h : ∀ members note, node ≠ .union members note) :
    otherMember? node.toRaw = none := by
  cases node with
  | union members note => exact absurd rfl (h members note)
  | primitive kind note => cases kind <;> rfl
  | _ => rfl

/-- Members that are null are always written, so one other member alone can be in the way. -/
theorem checkMembers_of_nullableMember? {config : Config} {members : List SchemaNode}
    {only : SchemaNode} (h : nullableMember? members = some only) :
    checkMembers config members = checkNode config only := by
  have hfilter : checkMembers config members =
      checkMembers config (members.filter (!·.isNull)) := by
    clear h
    induction members with
    | nil => rfl
    | cons member rest ih =>
      cases hnull : member.isNull with
      | true =>
        obtain ⟨note, rfl⟩ : ∃ note, member = .null note := by
          cases member with
          | null note => exact ⟨note, rfl⟩
          | _ => cases hnull
        rw [List.filter_cons_of_neg (by simp [hnull])]
        exact ih
      | false =>
        rw [List.filter_cons_of_pos (by simp [hnull]), checkMembers, checkMembers, ih]
  rw [hfilter, (nullableMember?_eq_some_iff.mp h).2, checkMembers]
  cases checkNode config only <;> rfl

section
variable {node : SchemaNode} (hint : String) (names : Sanitizer)

theorem eq_of_isEmptyObject (h : isEmptyObject node.toRaw = true) :
    ∃ note, node = .object [] false note := by
  cases node with
  | object fields isOpen note =>
    rw [toRaw_object] at h
    cases fields with
    | nil =>
      cases isOpen with
      | false => exact ⟨note, rfl⟩
      | true => cases h
    | cons field rest => cases h
  | primitive kind note => cases kind <;> cases h
  | _ => cases h

/-- The body of a declaration is the structure of the node, if the node is no object. -/
theorem bodyOf_of_ne_object (h : node.toRaw.kind ≠ .object) :
    Typescript.bodyOf node hint names = (Typescript.structureOf node hint names).map .alias := by
  cases node with
  | object => exact absurd rfl h
  | _ => rfl

/-- A node that is neither empty nor a type or null is declared or stands as its structure. -/
theorem refer_of_not_otherMember?_toRaw (hempty : isEmptyObject node.toRaw = false)
    (hnone : otherMember? node.toRaw = none) :
    Typescript.refer node hint names =
      if isDeclared node.toRaw then
        (Typescript.bodyOf node (names.claim hint).1 (names.claim hint).2).declare
          (names.claim hint).1
      else Typescript.structureOf node hint names := by
  have hdeclared : isDeclared node.toRaw =
      (node.toRaw.kind = .object || node.toRaw.isComposite && Typescript.holdsObject node) := by
    rw [isDeclared, holdsObject_toRaw]
  rw [hdeclared]
  cases node with
  | object fields isOpen note =>
    have hne : fields = [] → isOpen = false → False := by
      rintro rfl rfl
      cases hempty
    exact Typescript.refer.eq_2 hint names fields isOpen note hne
  | union members note =>
    rw [otherMember?_union] at hnone
    rw [Typescript.refer, Option.map_eq_none_iff.mp hnone, Typescript.holdsObject]
    rfl
  | array items note =>
    rw [Typescript.refer, Typescript.holdsObject]
    rfl
  | record values note =>
    rw [Typescript.refer, Typescript.holdsObject]
    rfl
  | primitive kind note =>
    rw [Typescript.refer]
    cases kind <;> rfl
  | _ =>
    rw [Typescript.refer]
    rfl

end

section
variable (config : Config)

mutual
/-- The parts of a raw node are there when they are read, and the expression that is made of them is
the one that refers to the node. -/
theorem refer_toRaw (node : SchemaNode) (hint : String) (names : Sanitizer) :
    refer config node.toRaw hint names =
      checked (checkNode config node) (Typescript.refer node hint names) := by
  cases hempty : isEmptyObject node.toRaw with
  | true =>
    obtain ⟨note, rfl⟩ := eq_of_isEmptyObject hempty
    rw [refer_of_isEmptyObject hint names hempty, Typescript.refer]
    rfl
  | false =>
  -- A type or null is written by its other member; what is left is declared or stands in place.
  have hplain (hnone : otherMember? node.toRaw = none) : refer config node.toRaw hint names =
      checked (checkNode config node) (Typescript.refer node hint names) := by
    rw [refer_of_not_otherMember? hint names hempty hnone,
      refer_of_not_otherMember?_toRaw hint names hempty hnone]
    split
    · rw [bodyOf_toRaw node, map_checked]
    · next hplace =>
      refine structureOf_toRaw node hint names fun hkind => hplace ?_
      rw [isDeclared, hkind]
      rfl
  match node with
  | .union members note =>
    cases honly : nullableMember? members with
    | none =>
      exact hplain (by rw [otherMember?_union, honly]; rfl)
    | some only =>
      have hlt := sizeOf_lt_of_nullableMember? honly
      have hother : otherMember? (SchemaNode.union members note).toRaw = some only.toRaw := by
        rw [otherMember?_union, honly]
        rfl
      rw [refer_of_otherMember? hint names hempty hother, refer_toRaw only, map_checked, checkNode,
        checkMembers_of_nullableMember? honly, Typescript.refer, honly]
  | .any _ | .null _ | .primitive _ _ | .literal _ _ | .object _ _ _ | .array _ _ | .record _ _ =>
    exact hplain (otherMember?_of_ne_union nofun)
termination_by (sizeOf node, 2)

theorem bodyOf_toRaw (node : SchemaNode) (name : String) (names : Sanitizer) :
    bodyOf config node.toRaw name names =
      checked (checkNode config node) (Typescript.bodyOf node name names) := by
  rw [bodyOf]
  split
  · next hkind =>
    match node with
    | .object fields isOpen note =>
      rw [toRaw_object, referFields_toRaw fields name names, map_checked]
      rfl
    | .primitive kind note => cases kind <;> cases hkind
  · next hkind =>
    rw [structureOf_toRaw node name names hkind, bodyOf_of_ne_object name names hkind, map_checked]
termination_by (sizeOf node, 1)

theorem structureOf_toRaw (node : SchemaNode) (name : String) (names : Sanitizer)
    (hkind : node.toRaw.kind ≠ .object) :
    structureOf config node.toRaw name names =
      checked (checkNode config node) (Typescript.structureOf node name names) := by
  match node with
  | .object _ _ _ => exact absurd rfl hkind
  | .array items note =>
    rw [structureOf]
    show (refer config items.toRaw (name ++ "Item") names).map _ = _
    rw [refer_toRaw items, map_checked]
    rfl
  | .record values note =>
    rw [structureOf]
    show (refer config values.toRaw (name ++ "Value") names).map _ = _
    rw [refer_toRaw values, map_checked]
    rfl
  | .union members note =>
    rw [toRaw_union, structureOf]
    show (referMembers config (members.map toRaw) name 1 names).map _ = _
    rw [referMembers_toRaw members, map_checked]
    rfl
  | .primitive kind note => cases kind <;> (rw [structureOf]; rfl)
  | .any _ | .null _ | .literal _ _ =>
    rw [structureOf]
    rfl
termination_by (sizeOf node, 0)

theorem referFields_toRaw (fields : List (Member SchemaNode)) (parent : String)
    (names : Sanitizer) :
    referFields config (fields.map (Member.map toRaw)) parent names =
      checked (checkFields config fields) (Typescript.referFields fields parent names) := by
  match fields with
  | [] =>
    rw [List.map_nil, referFields, Typescript.referFields]
    rfl
  | ⟨name, optional, node⟩ :: rest =>
    rw [List.map_cons, Member.map, referFields, refer_toRaw node, Typescript.referFields,
      checkFields, checkField, SchemaNode.note_toRaw]
    cases checkNode config node with
    | error e => rfl
    | ok _ =>
      dsimp only [checked]
      cases checkNote config node.note with
      | error e => rfl
      | ok _ =>
        dsimp only
        rw [referFields_toRaw rest, map_checked]
        rfl
termination_by (sizeOf fields, 0)

theorem referMembers_toRaw (members : List SchemaNode) (name : String) (number : Nat)
    (names : Sanitizer) :
    referMembers config (members.map toRaw) name number names =
      checked (checkMembers config members)
        (Typescript.referMembers members name number names) := by
  match members with
  | [] =>
    rw [List.map_nil, referMembers, Typescript.referMembers]
    rfl
  | member :: rest =>
    rw [List.map_cons, referMembers, refer_toRaw member, Typescript.referMembers, checkMembers]
    cases checkNode config member with
    | error e => rfl
    | ok _ =>
      dsimp only [checked]
      rw [referMembers_toRaw rest, map_checked]
      rfl
termination_by (sizeOf members, 0)
end

/-- The raw node of a node is written as the node is. -/
theorem typeSource_toRaw (node : SchemaNode) (name : String) (doc : List String) :
    typeSource config node.toRaw name doc =
      (Typescript.typeSource config node name doc).mapError .fault := by
  rw [typeSource, Typescript.typeSource, SchemaNode.note_toRaw]
  cases checkNote config node.note with
  | error e => rfl
  | ok _ =>
    dsimp only
    rw [bodyOf_toRaw]
    cases checkNode config node <;> rfl

end

/-! ## Converted documents -/

/-- Whether the literal and the constraints of a node have no integer of too many digits. -/
def IsWritable (n : RawNode) : Prop :=
  n.literal.isWritable = true ∧ ∀ constraint ∈ n.note.constraints, constraint.2.isWritable = true

theorem writes_of_isWritable {node : SchemaNode}
    (h : ∀ inner, node.toRaw.Contains inner → IsWritable inner) :
    node.Writes fun v => v.isWritable = true := by
  intro n hn v hv
  obtain ⟨hliteral, hconstraints⟩ := SchemaNode.everywhere_of_contains node h n hn
  rw [SchemaNode.note_toRaw] at hconstraints
  have hvalues : ∀ v ∈ n.note.constraints.map Prod.snd, v.isWritable = true :=
    List.forall_mem_map.mpr hconstraints
  cases n with
  | literal value note =>
    rcases List.mem_cons.mp hv with rfl | hv
    · exact hliteral
    · exact hvalues v hv
  | _ => exact hvalues v hv

section
variable {document : Json} {external? : Option (Json → Except Fault Json)}
  {limit : Schema.ReferenceLimit} {raw : RawNode}

/-- The raw node of a document without integers of too many digits has none either. -/
theorem isWritable_of_contains (hdocument : document.isWritable = true)
    (hexternal : ∀ resolver ∈ external?, ∀ reference target,
      resolver reference = .ok target → target.isWritable = true)
    (h : Schema.Raw.ofDocument document external? limit = .ok raw) {inner : RawNode}
    (hinner : raw.Contains inner) : IsWritable inner := by
  rw [Schema.Raw.ofDocument_eq] at h
  obtain ⟨node, hnode, rfl⟩ := exists_of_map_eq_ok h
  have hwrites : node.Writes fun v => v.isWritable = true :=
    Schema.writes_of_convert rfl
      (fun _ _ _ htarget _ hv => hv.isWritable
        (Schema.isWritable_of_target hdocument hexternal htarget))
      (fun _ hv => hv.isWritable hdocument) hnode
  obtain ⟨n, hn, rfl⟩ := SchemaNode.exists_of_contains_toRaw hwrites hinner
  rw [IsWritable, SchemaNode.note_toRaw]
  cases n with
  | literal value note =>
    exact ⟨hn _ List.mem_cons_self, fun constraint hmem =>
      hn _ (List.mem_cons_of_mem _ (List.mem_map_of_mem hmem))⟩
  | primitive kind note => exact ⟨rfl, fun constraint hmem => hn _ (List.mem_map_of_mem hmem)⟩
  | _ => exact ⟨rfl, fun constraint hmem => hn _ (List.mem_map_of_mem hmem)⟩

/-- Converted nodes are well formed and can be written.  Every node in the raw node of a document has
exactly the parts that its kind calls for: an element in arrays and values in records only, fields
in objects only and of distinct names, and members in unions only and two of them or more.  So no
part is missed when the node is written; and where all descriptions that the conversion comes to are
absent or texts, and no literal or constraint has an integer of too many digits, it is written for
every name and all extra documentation. -/
theorem wellFormed_and_written (hkeys : document.HasDistinctKeys)
    (htargets : ∀ resolver ∈ external?, ∀ reference target,
      resolver reference = .ok target → target.HasDistinctKeys)
    (h : Schema.Raw.ofDocument document external? limit = .ok raw) :
    (∀ inner, raw.Contains inner → inner.IsWellFormed) ∧
      (∀ config name doc e, typeSource config raw name doc = .error e → ∃ fault, e = .fault fault) ∧
      ((∀ reached,
          Schema.Reached (Schema.Sources.mk document external?).LeadsTo document reached →
          Schema.descriptionOf reached = .null ∨ ∃ s, Schema.descriptionOf reached = .str s) →
        (∀ inner, raw.Contains inner → IsWritable inner) →
        ∀ name doc, ∃ source, typeSource .default raw name doc = .ok source) := by
  refine ⟨fun inner => Schema.Raw.isWellFormed_of_contains hkeys htargets h, ?_, ?_⟩
  all_goals
    rw [Schema.Raw.ofDocument_eq] at h
    obtain ⟨node, hnode, rfl⟩ := exists_of_map_eq_ok h
  · intro config name doc e he
    rw [typeSource_toRaw] at he
    cases hsource : Typescript.typeSource config node name doc with
    | error fault =>
      rw [hsource] at he
      exact ⟨fault, (Except.error.inj he).symm⟩
    | ok source => rw [hsource] at he; cases he
  · intro hdescriptions hwritable name doc
    have hdescribed : node.Described fun d => d = .null ∨ ∃ s, d = .str s :=
      Schema.described_of_convert _ (.inl rfl) (fun _ l _ htarget => ⟨l, htarget⟩) hdescriptions
        hnode
    have htexts : node.Everywhere fun n =>
        n.note.description.isTruthy = true → ∃ s, n.note.description = .str s := by
      intro n hn htruthy
      refine (hdescribed n hn).resolve_left fun hnull => ?_
      have hnone : n.note.description = .null := hnull
      rw [hnone] at htruthy
      cases htruthy
    have hindent : Config.default.indent = .ok [' ', ' '] := by decide
    obtain ⟨source, hsource⟩ :=
      exists_typeSource hindent htexts (writes_of_isWritable hwritable) name doc
    refine ⟨source, ?_⟩
    rw [typeSource_toRaw, hsource]
    rfl

end

/-- A list of what the other alternative says. -/
def listSchema : Json :=
  .obj [("type", .str "array"), ("items", .obj [("$ref", .str "#/anyOf/1")])]

/-- An object with one property, which says nothing. -/
def keySchema : Json := .obj [("type", .str "object"), ("properties", .obj [("a", .bool true)])]

/-- One of the two. -/
def eitherDocument : Json :=
  .obj [("description", .str "d"), ("anyOf", .arr [listSchema, keySchema])]

/-- The raw node of an object with one property, which says nothing. -/
def keyNode : RawNode := { kind := .object, fields := [⟨"a", true, { kind := .any }⟩] }

/-- The raw node of `eitherDocument`. -/
def eitherNode : RawNode where
  kind := .union
  members := [{ kind := .array, items? := some keyNode }, keyNode]
  note := { description := .str "d" }

theorem wellFormed_and_written_eitherDocument :
    eitherDocument.HasDistinctKeys ∧
      Schema.Raw.ofDocument eitherDocument none (.ofInt 16) = .ok eitherNode ∧
      (∀ inner, eitherNode.Contains inner → inner.IsWellFormed) ∧
      ∃ source, typeSource .default eitherNode "Kind" ["*/"] = .ok source := by
  have hkeys : eitherDocument.HasDistinctKeys := by
    simp [eitherDocument, listSchema, keySchema, Json.HasDistinctKeys,
      Json.EntriesHaveDistinctKeys, Json.EntryHasDistinctKeys, Json.AllHaveDistinctKeys]
  have hnode : Schema.Raw.ofDocument eitherDocument none (.ofInt 16) = .ok eitherNode := by cbv
  let pointer : Json := .obj [("$ref", .str "#/anyOf/1")]
  let all : List Json := [eitherDocument, listSchema, pointer, keySchema, .bool true]
  have hplans : ∀ s ∈ all, ((Schema.planOf s).schemas ⊆ all ∧
      (Schema.planOf s).reference?.getD (.str "#/anyOf/1") = .str "#/anyOf/1") ∧
        (Schema.descriptionOf s = .null ∨ ∃ d, Schema.descriptionOf s = .str d) := by
    have hschemas : (Schema.planOf eitherDocument).schemas = [listSchema, keySchema] ∧
        (Schema.planOf listSchema).schemas = [pointer] ∧ (Schema.planOf pointer).schemas = [] ∧
        (Schema.planOf keySchema).schemas = [.bool true] ∧
        (Schema.planOf (.bool true)).schemas = [] := by
      refine ⟨?_, ?_, ?_, ?_, ?_⟩ <;> cbv
    simp only [all, List.forall_mem_cons, hschemas]
    refine ⟨⟨⟨by simp, by cbv⟩, .inr ⟨"d", rfl⟩⟩, ⟨⟨by simp, by cbv⟩, .inl rfl⟩,
      ⟨⟨by simp, by cbv⟩, .inl rfl⟩, ⟨⟨by simp, by cbv⟩, .inl rfl⟩,
      ⟨⟨by simp, by cbv⟩, .inl rfl⟩, by simp⟩
  have hlead : (Schema.Sources.mk eitherDocument none).LeadsTo (.str "#/anyOf/1") keySchema :=
    ⟨.root, by cbv⟩
  obtain ⟨hparts, -, hwritten⟩ := wellFormed_and_written hkeys (by simp) hnode
  refine ⟨hkeys, hnode, hparts, hwritten (fun reached hreached => ?_)
    (fun inner => isWritable_of_contains (by cbv) (by simp) hnode) "Kind" ["*/"]⟩
  refine (hplans reached (hreached.of_closed (· ∈ all) (by simp [all]) ?_ ?_)).2
  · intro s part hs hpart
    exact (hplans s hs).1.1 hpart
  · intro s reference target hs hreference htarget
    have hpointer := (hplans s hs).1.2
    rw [hreference, Option.getD_some] at hpointer
    rw [hpointer] at htarget
    rw [hlead.eq htarget]
    simp [all]

/-- A literal of too many digits is converted and cannot be written. -/
theorem typeSource_const_pow :
    Schema.Raw.ofDocument (.obj [("const", .int (10 ^ Json.maxIntegerDigits))]) none (.ofInt 16) =
        .ok { kind := .literal, literal := .int (10 ^ Json.maxIntegerDigits) } ∧
      typeSource .default { kind := .literal, literal := .int (10 ^ Json.maxIntegerDigits) } "Foo"
        [] = .error (.fault .numeralTooLong) := by
  have hnode (n : Int) : Schema.Raw.ofDocument (.obj [("const", .int n)]) none (.ofInt 16) =
      .ok { kind := .literal, literal := .int n } := by
    cbv
  have hlong : checkNode .default (.literal (.int (10 ^ Json.maxIntegerDigits)) {}) =
      .error .numeralTooLong :=
    checkLiteral_eq_error_iff.mpr ⟨rfl, Json.not_isWritable_pow⟩
  refine ⟨hnode _, ?_⟩
  have hsource := typeSource_toRaw .default
    (.literal (.int (10 ^ Json.maxIntegerDigits)) {}) "Foo" []
  rw [Typescript.typeSource, hlong] at hsource
  exact hsource

end SchemaTypings.Typescript.Raw
