/-
  SchemaTypings.Typescript.Declaration

  Named declarations for a schema node.  Objects, and unions, arrays and records that hold one, are
  declared on their own under a name made from the parent's and the field's; everything else is
  written in place.  A declaration stands before those that it uses.
-/
import SchemaTypings.Typescript.TypeExpr
import SchemaTypings.Typescript.Vocabulary

namespace SchemaTypings.Typescript

/-- A member of a declared object type, with what its schema says beside its structure. -/
structure Property where
  name : String
  optional : Bool
  type : TypeExpr
  note : Note

/-- What a declaration says of its name. -/
inductive DeclarationBody where
  /-- An object type; an open one has an index signature. -/
  | interface (properties : List Property) (isOpen : Bool)
  | alias (type : TypeExpr)

/-- A named type. -/
structure Declaration where
  name : String
  body : DeclarationBody

/-- What making declarations gives: a result, the declarations it uses, and the names left. -/
structure Hoisted (α : Type) where
  result : α
  declarations : List Declaration
  names : Naming.Sanitizer

namespace Hoisted

/-- A result that uses no declarations. -/
def plain {α : Type} (result : α) (names : Naming.Sanitizer) : Hoisted α := ⟨result, [], names⟩

/-- The same declarations with another result. -/
def map {α β : Type} (f : α → β) (h : Hoisted α) : Hoisted β :=
  ⟨f h.result, h.declarations, h.names⟩

/-- One result after another, with the declarations of both. -/
def andThen {α β : Type} (h : Hoisted α) (f : α → Naming.Sanitizer → Hoisted β) : Hoisted β :=
  let next := f h.result h.names
  ⟨next.result, h.declarations ++ next.declarations, next.names⟩

/-- The named type whose declaration comes before those that its body uses. -/
def declare (name : String) (body : Hoisted DeclarationBody) : Hoisted TypeExpr :=
  ⟨.named name, ⟨name, body.result⟩ :: body.declarations, body.names⟩

end Hoisted

/-! ## What is declared on its own -/

mutual
/-- Whether an object type has to be declared at or below a node. -/
def holdsObject : SchemaNode → Bool
  | .object fields isOpen _ => !fields.isEmpty || isOpen
  | .array items _ => holdsObject items
  | .record values _ => holdsObject values
  | .union members _ => anyHoldsObject members
  | _ => false

/-- Whether an object type has to be declared at or below one of the nodes. -/
def anyHoldsObject : List SchemaNode → Bool
  | [] => false
  | member :: rest => holdsObject member || anyHoldsObject rest
end

/-- The name suggested for the type of a field. -/
def fieldHint (parent field : String) : String :=
  parent ++ (if Naming.pascalCase field = "" then "Field" else Naming.pascalCase field)

/-- The other member of a union of one type and null. -/
def nullableMember? (members : List SchemaNode) : Option SchemaNode :=
  if members.any SchemaNode.isNull then
    match members.filter (!·.isNull) with
    | [only] => some only
    | _ => none
  else none

theorem nullableMember?_eq_some_iff {members : List SchemaNode} {only : SchemaNode} :
    nullableMember? members = some only ↔
      (∃ m ∈ members, m.isNull = true) ∧ members.filter (!·.isNull) = [only] := by
  rw [← List.any_eq_true, nullableMember?]
  constructor
  · intro h
    split at h
    · next hnull =>
      split at h
      · next hother =>
        cases h
        exact ⟨hnull, hother⟩
      · cases h
    · cases h
  · rintro ⟨hnull, hother⟩
    rw [if_pos hnull, hother]

theorem mem_of_nullableMember? {members : List SchemaNode} {only : SchemaNode}
    (h : nullableMember? members = some only) : only ∈ members := by
  have hmem : only ∈ members.filter (!·.isNull) := by simp [(nullableMember?_eq_some_iff.mp h).2]
  exact (List.mem_filter.mp hmem).1

theorem sizeOf_lt_of_nullableMember? {members : List SchemaNode} {only : SchemaNode}
    (h : nullableMember? members = some only) : sizeOf only < sizeOf members :=
  List.sizeOf_lt_of_mem (mem_of_nullableMember? h)

mutual
/-- The type expression that refers to a node; `hint` is the name it gets if it is declared. -/
def refer (node : SchemaNode) (hint : String) (names : Naming.Sanitizer) : Hoisted TypeExpr :=
  match node with
  | .object [] false _ => .plain .emptyObject names
  | .object fields isOpen _ =>
    let (name, names) := names.claim hint
    ((referFields fields name names).map (.interface · isOpen)).declare name
  | .union members _ =>
    match _h : nullableMember? members with
    | some only => (refer only hint names).map fun type => .union [type, .null]
    | none =>
      if anyHoldsObject members then
        let (name, names) := names.claim hint
        ((referMembers members name 1 names).map fun ts => .alias (.union (TypeExpr.dedupe ts))).declare name
      else (referMembers members hint 1 names).map fun ts => .union (TypeExpr.dedupe ts)
  | .array items _ =>
    if holdsObject items then
      let (name, names) := names.claim hint
      ((refer items (name ++ "Item") names).map fun t => .alias (.array t)).declare name
    else (refer items (hint ++ "Item") names).map .array
  | .record values _ =>
    if holdsObject values then
      let (name, names) := names.claim hint
      ((refer values (name ++ "Value") names).map fun t => .alias (.record t)).declare name
    else (refer values (hint ++ "Value") names).map .record
  | .any _ => .plain .any names
  | .null _ => .plain .null names
  | .primitive kind _ => .plain (.primitive kind) names
  | .literal value _ => .plain (.literal value) names
termination_by sizeOf node
decreasing_by
  all_goals simp_wf
  all_goals try omega
  have hlt := sizeOf_lt_of_nullableMember? _h
  omega

/-- The properties for the fields of the object declared as `parent`. -/
def referFields (fields : List (Member SchemaNode)) (parent : String) (names : Naming.Sanitizer) :
    Hoisted (List Property) :=
  match fields with
  | [] => .plain [] names
  | ⟨name, optional, node⟩ :: rest =>
    (refer node (fieldHint parent name) names).andThen fun type names =>
      (referFields rest parent names).map (⟨name, optional, type, node.note⟩ :: ·)
termination_by sizeOf fields

/-- The type expressions for the members of a union named `name`, the first of which has the given
number. -/
def referMembers (members : List SchemaNode) (name : String) (number : Nat)
    (names : Naming.Sanitizer) : Hoisted (List TypeExpr) :=
  match members with
  | [] => .plain [] names
  | member :: rest =>
    (refer member (Naming.numbered name number) names).andThen fun type names =>
      (referMembers rest name (number + 1) names).map (type :: ·)
termination_by sizeOf members
end

/-- The body of a declaration of the node itself. -/
def bodyOf (node : SchemaNode) (name : String) (names : Naming.Sanitizer) :
    Hoisted DeclarationBody :=
  match node with
  | .object fields isOpen _ => (referFields fields name names).map (.interface · isOpen)
  | .union members _ => (referMembers members name 1 names).map fun ts => .alias (.union (TypeExpr.dedupe ts))
  | .array items _ => (refer items (name ++ "Item") names).map fun t => .alias (.array t)
  | .record values _ => (refer values (name ++ "Value") names).map fun t => .alias (.record t)
  | .any _ => .plain (.alias .any) names
  | .null _ => .plain (.alias .null) names
  | .primitive kind _ => .plain (.alias (.primitive kind)) names
  | .literal value _ => .plain (.alias (.literal value)) names

/-- The declarations for a node, its own one first. -/
def declarations (node : SchemaNode) (name : String) : List Declaration :=
  let (name, names) := sanitizer.claim name
  ((bodyOf node name names).declare name).declarations

end SchemaTypings.Typescript
