/-
  SchemaTypings.Typescript.RawSource

  Declarations made by reading the parts of raw nodes.  Of each node the parts of its kind are read,
  and are taken to be there; literals and notes are written on the way.
-/
import SchemaTypings.Schema.RawNode
import SchemaTypings.Typescript.Printer

namespace SchemaTypings.Typescript.Raw

/-- Why a raw node is not written. -/
inductive Failure where
  /-- An array has no element. -/
  | missingItems
  /-- A record has nothing that its keys are mapped to. -/
  | missingValues
  | fault (fault : Fault)

/-! ## What is declared on its own -/

mutual
/-- Whether an object type has to be declared at or below a node. -/
def holdsObject : RawNode → Bool
  | ⟨kind, fields, items?, values?, members, _, isOpen, _⟩ =>
    if kind = .object then !fields.isEmpty || isOpen
    else anyHoldsObject members || someHoldsObject items? || someHoldsObject values?

/-- Whether an object type has to be declared at or below one of the nodes. -/
def anyHoldsObject : List RawNode → Bool
  | [] => false
  | member :: rest => holdsObject member || anyHoldsObject rest

/-- Whether there is a node, and an object type has to be declared at or below it. -/
def someHoldsObject : Option RawNode → Bool
  | none => false
  | some node => holdsObject node
end

/-- Whether a node is referred to by the name of a declaration. -/
def isDeclared (node : RawNode) : Bool :=
  node.kind = .object || node.isComposite && holdsObject node

/-- Whether a node is an object without members. -/
def isEmptyObject (node : RawNode) : Bool :=
  node.kind = .object && node.fields.isEmpty && !node.isOpen

/-- The other member of a union of one type and null. -/
def otherMember? (node : RawNode) : Option RawNode :=
  if node.kind = .union && node.isNullable then
    match node.members.filter (!·.isNull) with
    | [only] => some only
    | _ => none
  else none

/-! ## Sizes of parts -/

section
variable {n : RawNode}

theorem sizeOf_fields_lt (n : RawNode) : sizeOf n.fields < sizeOf n := by
  cases n
  simp
  omega

theorem sizeOf_members_lt (n : RawNode) : sizeOf n.members < sizeOf n := by
  cases n
  simp
  omega

theorem sizeOf_items_lt {items : RawNode} (h : n.items? = some items) :
    sizeOf items < sizeOf n := by
  cases n
  cases h
  simp
  omega

theorem sizeOf_values_lt {values : RawNode} (h : n.values? = some values) :
    sizeOf values < sizeOf n := by
  cases n
  cases h
  simp
  omega

theorem sizeOf_lt_of_otherMember? {only : RawNode} (h : otherMember? n = some only) :
    sizeOf only < sizeOf n := by
  unfold otherMember? at h
  split at h
  · split at h
    · next hfilter =>
      cases h
      have hmem : only ∈ n.members.filter (!·.isNull) := by rw [hfilter]; exact List.mem_cons_self
      exact Nat.lt_trans (List.sizeOf_lt_of_mem (List.mem_filter.mp hmem).1) (sizeOf_members_lt n)
    · cases h
  · cases h

end

/-! ## Declarations -/

section
variable (config : Config)

-- The first three are about one and the same node: its expression calls for its body, and that for
-- its structure.  The second number of the measure orders these calls.
mutual
/-- The type expression that refers to a node; `hint` is the name it gets if it is declared. -/
def refer (node : RawNode) (hint : String) (names : Naming.Sanitizer) :
    Except Failure (Hoisted TypeExpr) :=
  if isEmptyObject node then .ok (.plain .emptyObject names)
  else
    match _h : otherMember? node with
    | some only => (refer only hint names).map (·.map fun type => .union [type, .null])
    | none =>
      if isDeclared node then
        let (name, names) := names.claim hint
        (bodyOf node name names).map (·.declare name)
      else structureOf node hint names
termination_by (sizeOf node, 2)
decreasing_by
  · exact Prod.Lex.left _ _ (sizeOf_lt_of_otherMember? _h)
  · exact Prod.Lex.right _ (by decide)
  · exact Prod.Lex.right _ (by decide)

/-- The body of a declaration of the node itself. -/
def bodyOf (node : RawNode) (name : String) (names : Naming.Sanitizer) :
    Except Failure (Hoisted DeclarationBody) :=
  if node.kind = .object then
    (referFields node.fields name names).map (·.map (.interface · node.isOpen))
  else (structureOf node name names).map (·.map .alias)
termination_by (sizeOf node, 1)
decreasing_by
  · exact Prod.Lex.left _ _ (sizeOf_fields_lt node)
  · exact Prod.Lex.right _ (by decide)

/-- The type expression for the structure of a node. -/
def structureOf (node : RawNode) (name : String) (names : Naming.Sanitizer) :
    Except Failure (Hoisted TypeExpr) :=
  match node.kind with
  | .any => .ok (.plain .any names)
  | .null => .ok (.plain .null names)
  | .string => .ok (.plain (.primitive .string) names)
  | .number => .ok (.plain (.primitive .number) names)
  | .boolean => .ok (.plain (.primitive .boolean) names)
  | .literal =>
    match checkLiteral node.literal with
    | .error e => .error (.fault e)
    | .ok _ => .ok (.plain (.literal node.literal) names)
  | .array =>
    match _h : node.items? with
    | some items => (refer items (name ++ "Item") names).map (·.map .array)
    | none => .error .missingItems
  | .record =>
    match _h : node.values? with
    | some values => (refer values (name ++ "Value") names).map (·.map .record)
    | none => .error .missingValues
  | .union =>
    (referMembers node.members name 1 names).map (·.map fun types => .union (TypeExpr.dedupe types))
  | .object =>
    -- Objects do not come here: they are declared, or empty.
    if isEmptyObject node then .ok (.plain .emptyObject names)
    else
      let (name, names) := names.claim name
      (referFields node.fields name names).map fun properties =>
        (properties.map (.interface · node.isOpen)).declare name
termination_by (sizeOf node, 0)
decreasing_by
  · exact Prod.Lex.left _ _ (sizeOf_items_lt _h)
  · exact Prod.Lex.left _ _ (sizeOf_values_lt _h)
  · exact Prod.Lex.left _ _ (sizeOf_members_lt node)
  · exact Prod.Lex.left _ _ (sizeOf_fields_lt node)

/-- The properties for the fields of the object declared as `parent`. -/
def referFields (fields : List (Member RawNode)) (parent : String) (names : Naming.Sanitizer) :
    Except Failure (Hoisted (List Property)) :=
  match fields with
  | [] => .ok (.plain [] names)
  | ⟨name, optional, node⟩ :: rest =>
    match refer node (fieldHint parent name) names with
    | .error e => .error e
    | .ok type =>
      match checkNote config node.note with
      | .error e => .error (.fault e)
      | .ok _ =>
        (referFields rest parent type.names).map fun more =>
          type.andThen fun type _ => more.map (⟨name, optional, type, node.note⟩ :: ·)
termination_by (sizeOf fields, 0)

/-- The type expressions for the members of a union named `name`, the first of which has the given
number. -/
def referMembers (members : List RawNode) (name : String) (number : Nat)
    (names : Naming.Sanitizer) : Except Failure (Hoisted (List TypeExpr)) :=
  match members with
  | [] => .ok (.plain [] names)
  | member :: rest =>
    match refer member (Naming.numbered name number) names with
    | .error e => .error e
    | .ok type =>
      (referMembers rest name (number + 1) type.names).map fun more =>
        type.andThen fun type _ => more.map (type :: ·)
termination_by (sizeOf members, 0)
end

/-- The source of declarations, the first of which is documented by a note and the extra lines. -/
def declarationsSource (note : Note) (doc : List String) (declarations : List Declaration) :
    Except Fault String :=
  match noteLines config note with
  | .error e => .error e
  | .ok lines =>
    match declarationTexts config (lines ++ extraLines config doc) declarations with
    | .error e => .error e
    | .ok texts => config.indent.map fun indent => String.ofList (declarationSource indent texts)

/-- The source that is written for a raw node. -/
def typeSource (node : RawNode) (name : String) (doc : List String) : Except Failure String :=
  match checkNote config node.note with
  | .error e => .error (.fault e)
  | .ok _ =>
    let (name, names) := sanitizer.claim name
    match bodyOf config node name names with
    | .error e => .error e
    | .ok body =>
      (declarationsSource config node.note doc (body.declare name).declarations).mapError .fault

end

end SchemaTypings.Typescript.Raw
