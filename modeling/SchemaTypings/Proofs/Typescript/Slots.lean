/-
  SchemaTypings.Proofs.Typescript.Slots

  Declarations written into slots.  A slot is taken for a declaration before its parts are written,
  which take theirs behind it, and is filled after them.  In the end all slots are filled, and what
  is in them are the declarations, in order.
-/
import SchemaTypings.Typescript.Declaration

namespace SchemaTypings.Typescript

open Naming (Sanitizer)

/-! ## Writing -/

/-- The slots taken so far, and the names left. -/
structure Sheet where
  slots : List (Option Declaration)
  names : Sanitizer

/-- What is done to a sheet on the way to a result. -/
abbrev Writer (α : Type) := StateM Sheet α

/-- Takes a slot behind all others. -/
def takeSlot : Writer Nat := do
  let sheet ← get
  set { sheet with slots := sheet.slots ++ [none] }
  return sheet.slots.length

/-- Puts a declaration into a slot. -/
def fillSlot (slot : Nat) (d : Declaration) : Writer Unit :=
  modify fun sheet => { sheet with slots := sheet.slots.set slot (some d) }

/-- Hands out a name for a hint. -/
def claimName (hint : String) : Writer String := do
  let sheet ← get
  set { sheet with names := (sheet.names.claim hint).2 }
  return (sheet.names.claim hint).1

/-- Declares a name, with a slot that is taken before the body is written. -/
def writeIn (name : String) (body : Writer DeclarationBody) : Writer Unit := do
  let slot ← takeSlot
  let body ← body
  fillSlot slot ⟨name, body⟩

mutual
/-- The expression that refers to a node, which is declared on the way where it has to be. -/
def writeType (node : SchemaNode) (hint : String) : Writer TypeExpr := do
  match node with
  | .object [] false _ => return .emptyObject
  | .object fields isOpen _ =>
    let name ← claimName hint
    writeIn name (return .interface (← writeFields fields name) isOpen)
    return .named name
  | .union members note =>
    match _h : nullableMember? members with
    | some only => return .union [← writeType only hint, .null]
    | none =>
      if anyHoldsObject members then
        let name ← claimName hint
        writeIn name (return .alias (← writeStructure (.union members note) name))
        return .named name
      else writeStructure (.union members note) hint
  | .array items note =>
    if holdsObject items then
      let name ← claimName hint
      writeIn name (return .alias (← writeStructure (.array items note) name))
      return .named name
    else writeStructure (.array items note) hint
  | .record values note =>
    if holdsObject values then
      let name ← claimName hint
      writeIn name (return .alias (← writeStructure (.record values note) name))
      return .named name
    else writeStructure (.record values note) hint
  | .any note => writeStructure (.any note) hint
  | .null note => writeStructure (.null note) hint
  | .primitive kind note => writeStructure (.primitive kind note) hint
  | .literal value note => writeStructure (.literal value note) hint
termination_by (sizeOf node, 1)
decreasing_by
  all_goals simp_wf
  all_goals try first
    | exact Prod.Lex.left _ _ (by omega)
    | exact Prod.Lex.right _ (by omega)
  have hlt := sizeOf_lt_of_nullableMember? _h
  exact Prod.Lex.left _ _ (by omega)

/-- The expression for the structure of a node that is no object. -/
def writeStructure (node : SchemaNode) (name : String) : Writer TypeExpr := do
  match node with
  | .object _ _ _ => return .emptyObject
  | .union members _ => return .union (TypeExpr.dedupe (← writeMembers members name 1))
  | .array items _ => return .array (← writeType items (name ++ "Item"))
  | .record values _ => return .record (← writeType values (name ++ "Value"))
  | .any _ => return .any
  | .null _ => return .null
  | .primitive kind _ => return .primitive kind
  | .literal value _ => return .literal value
termination_by (sizeOf node, 0)

/-- The properties for the fields of the object declared as `parent`. -/
def writeFields (fields : List (Member SchemaNode)) (parent : String) : Writer (List Property) := do
  match fields with
  | [] => return []
  | ⟨name, optional, node⟩ :: rest =>
    let type ← writeType node (fieldHint parent name)
    return ⟨name, optional, type, node.note⟩ :: (← writeFields rest parent)
termination_by (sizeOf fields, 0)

/-- The expressions for the members of a union, the first of which has the given number. -/
def writeMembers (members : List SchemaNode) (name : String) (number : Nat) :
    Writer (List TypeExpr) := do
  match members with
  | [] => return []
  | member :: rest =>
    let type ← writeType member (Naming.numbered name number)
    return type :: (← writeMembers rest name (number + 1))
termination_by (sizeOf members, 0)
end

/-- The body of a declaration of the node itself. -/
def writeBody (node : SchemaNode) (name : String) : Writer DeclarationBody := do
  match node with
  | .object fields isOpen _ => return .interface (← writeFields fields name) isOpen
  | node => return .alias (← writeStructure node name)

/-- Declares a node under the name for a hint. -/
def writeNode (node : SchemaNode) (hint : String) : Writer Unit := do
  let name ← claimName hint
  writeIn name (writeBody node name)

/-- The slots that the declarations for a node are written into. -/
def slots (node : SchemaNode) (name : String) : List (Option Declaration) :=
  ((writeNode node name).run ⟨[], sanitizer⟩).2.slots

/-! ## What is written -/

/-- Whether writing gives the result and leaves the names that making declarations does, and puts
its declarations into new slots, all of which are filled. -/
def Writes {α : Type} (w : Writer α) (h : Sanitizer → Hoisted α) : Prop :=
  ∀ slots names, w.run ⟨slots, names⟩ =
    ((h names).result, ⟨slots ++ (h names).declarations.map some, (h names).names⟩)

section
variable {α β : Type} {w : Writer α} {h : Sanitizer → Hoisted α}

theorem writes_pure (a : α) : Writes (pure a) (.plain a) := by
  intro slots names
  show (a, (⟨slots, names⟩ : Sheet)) = _
  rw [Hoisted.plain, List.map_nil, List.append_nil]

theorem Writes.congr (hw : Writes w h) {h' : Sanitizer → Hoisted α}
    (heq : ∀ names, h' names = h names) : Writes w h' := by
  intro slots names
  rw [hw, heq]

theorem Writes.andThen (hw : Writes w h) {f : α → Writer β} {g : α → Sanitizer → Hoisted β}
    (hf : ∀ a, Writes (f a) (g a)) : Writes (w >>= f) fun names => (h names).andThen g := by
  intro slots names
  rw [StateT.run_bind, hw]
  show (f (h names).result).run _ = _
  rw [hf]
  simp only [Hoisted.andThen, List.map_append, List.append_assoc]

theorem Writes.map (hw : Writes w h) (f : α → β) :
    Writes (w >>= fun a => pure (f a)) fun names => (h names).map f := by
  refine (hw.andThen fun a => writes_pure (f a)).congr fun names => ?_
  simp only [Hoisted.andThen, Hoisted.plain, List.append_nil, Hoisted.map]

theorem Writes.claim {f : String → Writer α} {g : String → Sanitizer → Hoisted α}
    (hf : ∀ name, Writes (f name) (g name)) (hint : String) :
    Writes (claimName hint >>= f) fun names => g (names.claim hint).1 (names.claim hint).2 :=
  fun slots names => hf (names.claim hint).1 slots (names.claim hint).2

end

/-- The slot that is taken first is the one in front of those that the body takes, and it is the one
that is filled. -/
theorem Writes.declare {body : Writer DeclarationBody} {h : Sanitizer → Hoisted DeclarationBody}
    (hbody : Writes body h) (name : String) :
    Writes (do writeIn name body; return TypeExpr.named name) fun names =>
      (h names).declare name := by
  intro slots names
  have hrun : (do writeIn name body; return TypeExpr.named name : Writer TypeExpr).run
      ⟨slots, names⟩ = (TypeExpr.named name,
        ⟨(body.run ⟨slots ++ [none], names⟩).2.slots.set slots.length
          (some ⟨name, (body.run ⟨slots ++ [none], names⟩).1⟩),
          (body.run ⟨slots ++ [none], names⟩).2.names⟩) := rfl
  rw [hrun, hbody]
  dsimp only
  rw [List.append_assoc, List.set_append_right _ _ (Nat.le_refl _), Nat.sub_self]
  rfl

/-! ## Along a node -/

/-- The expression for the structure of a node that is no object. -/
def structureOf (node : SchemaNode) (name : String) (names : Sanitizer) : Hoisted TypeExpr :=
  match node with
  | .object _ _ _ => .plain .emptyObject names
  | .union members _ =>
    (referMembers members name 1 names).map fun ts => .union (TypeExpr.dedupe ts)
  | .array items _ => (refer items (name ++ "Item") names).map .array
  | .record values _ => (refer values (name ++ "Value") names).map .record
  | .any _ => .plain .any names
  | .null _ => .plain .null names
  | .primitive kind _ => .plain (.primitive kind) names
  | .literal value _ => .plain (.literal value) names

/-- Under a new name, or in place. -/
theorem writes_declared_or {node : SchemaNode}
    (h : ∀ name, Writes (writeStructure node name) (structureOf node name)) (isDeclared : Bool)
    (hint : String) :
    Writes
      (if isDeclared then do
        let name ← claimName hint
        writeIn name (return .alias (← writeStructure node name))
        return .named name
      else writeStructure node hint)
      fun names =>
        if isDeclared then
          ((structureOf node (names.claim hint).1 (names.claim hint).2).map .alias).declare
            (names.claim hint).1
        else structureOf node hint names := by
  cases isDeclared with
  | true =>
    exact Writes.claim
      (g := fun name names => ((structureOf node name names).map .alias).declare name)
      (fun name => ((h name).map DeclarationBody.alias).declare name) hint
  | false => exact h hint

mutual
theorem writes_type (node : SchemaNode) (hint : String) :
    Writes (writeType node hint) (refer node hint) := by
  match node with
  | .object fields isOpen note =>
    by_cases hempty : fields = [] ∧ isOpen = false
    · obtain ⟨rfl, rfl⟩ := hempty
      rw [writeType]
      exact (writes_pure _).congr fun names => by rw [refer]
    · have hne : fields = [] → isOpen = false → False := fun h h' => hempty ⟨h, h'⟩
      have hbody : ∀ name, Writes
          (do return DeclarationBody.interface (← writeFields fields name) isOpen)
          fun names => (referFields fields name names).map (.interface · isOpen) :=
        fun name => (writes_fields fields name).map (DeclarationBody.interface · isOpen)
      rw [writeType.eq_2 hint fields isOpen note hne]
      refine (Writes.claim (fun name => (hbody name).declare name) hint).congr fun names => ?_
      exact refer.eq_2 hint names fields isOpen note hne
  | .union members note =>
    rw [writeType]
    -- Both recursions match on the same member, each in a form of its own.
    split
    · next only honly =>
      have hlt := sizeOf_lt_of_nullableMember? honly
      refine ((writes_type only hint).map fun t => TypeExpr.union [t, .null]).congr fun names => ?_
      rw [refer]
      split
      · next only' honly' =>
        cases honly.symm.trans honly'
        rfl
      · next hnone => cases honly.symm.trans hnone
    · next hnone =>
      refine (writes_declared_or (writes_structure (.union members note)) _ hint).congr ?_
      intro names
      rw [refer]
      split
      · next only honly => cases hnone.symm.trans honly
      · rfl
  | .array items note =>
    rw [writeType]
    refine (writes_declared_or (writes_structure (.array items note)) _ hint).congr fun names => ?_
    rw [refer]
    rfl
  | .record values note =>
    rw [writeType]
    refine (writes_declared_or (writes_structure (.record values note)) _ hint).congr ?_
    intro names
    rw [refer]
    rfl
  | .any _ | .null _ | .primitive _ _ | .literal _ _ =>
    rw [writeType, writeStructure]
    exact (writes_pure _).congr fun names => by rw [refer]
termination_by (sizeOf node, 1)

theorem writes_structure (node : SchemaNode) (name : String) :
    Writes (writeStructure node name) (structureOf node name) := by
  match node with
  | .union members _ =>
    rw [writeStructure]
    exact (writes_members members name 1).map fun ts => TypeExpr.union (TypeExpr.dedupe ts)
  | .array items _ =>
    rw [writeStructure]
    exact (writes_type items (name ++ "Item")).map TypeExpr.array
  | .record values _ =>
    rw [writeStructure]
    exact (writes_type values (name ++ "Value")).map TypeExpr.record
  | .object _ _ _ | .any _ | .null _ | .primitive _ _ | .literal _ _ =>
    rw [writeStructure]
    exact writes_pure _
termination_by (sizeOf node, 0)

theorem writes_fields (fields : List (Member SchemaNode)) (parent : String) :
    Writes (writeFields fields parent) (referFields fields parent) := by
  match fields with
  | [] =>
    rw [writeFields]
    exact (writes_pure _).congr fun names => by rw [referFields]
  | ⟨name, optional, node⟩ :: rest =>
    rw [writeFields]
    have hrest : ∀ type, Writes
        (do return ⟨name, optional, type, node.note⟩ :: (← writeFields rest parent))
        fun names => (referFields rest parent names).map (⟨name, optional, type, node.note⟩ :: ·) :=
      fun type => (writes_fields rest parent).map _
    refine ((writes_type node (fieldHint parent name)).andThen hrest).congr fun names => ?_
    rw [referFields]
termination_by (sizeOf fields, 0)

theorem writes_members (members : List SchemaNode) (name : String) (number : Nat) :
    Writes (writeMembers members name number) (referMembers members name number) := by
  match members with
  | [] =>
    rw [writeMembers]
    exact (writes_pure _).congr fun names => by rw [referMembers]
  | member :: rest =>
    rw [writeMembers]
    refine ((writes_type member (Naming.numbered name number)).andThen fun type =>
      (writes_members rest name (number + 1)).map (type :: ·)).congr fun names => ?_
    rw [referMembers]
termination_by (sizeOf members, 0)
end

theorem writes_body (node : SchemaNode) (name : String) :
    Writes (writeBody node name) (bodyOf node name) := by
  cases node with
  | object fields isOpen note =>
    exact (writes_fields fields name).map (DeclarationBody.interface · isOpen)
  | _ => exact (writes_structure _ name).map DeclarationBody.alias

/-- In the end there is one slot for each declaration, and it is filled with it. -/
theorem slots_eq (node : SchemaNode) (name : String) :
    slots node name = (declarations node name).map some := by
  have hdeclared := (writes_body node (sanitizer.claim name).1).declare (sanitizer.claim name).1 []
    (sanitizer.claim name).2
  exact congrArg (fun written => written.2.slots) hdeclared

end SchemaTypings.Typescript
