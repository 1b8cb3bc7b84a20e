/-
  SchemaTypings.Proofs.Typescript.Nulls

  How often null stands among the alternatives of a type expression.

  The expression of a node has no null among its alternatives if null is neither seen nor hidden in
  the node.  So null that is let in stands there once.  Where null is hidden it can come to stand
  there twice.
-/
import SchemaTypings.Proofs.Schema.NullKeyword
import SchemaTypings.Proofs.Typescript.Meaning

namespace SchemaTypings.Typescript

open SchemaNode (IsDefinite Everywhere)

/-! ## Alternatives -/

namespace TypeExpr

/-- Whether the type is that of null alone. -/
def isNull : TypeExpr → Bool
  | .null => true
  | _ => false

/-- How often null is among the alternatives of a type expression, unions in unions taken apart. -/
def nulls (t : TypeExpr) : Nat := t.flat.parts.countP isNull

mutual
/-- With unions in unions taken apart no member is a union. -/
theorem parts_of_mem_flat : (t : TypeExpr) → ∀ u ∈ t.flat.parts, u.parts = [u]
  | .union ts => by
    rw [flat, parts_ofParts (parts_of_mem_flatAll ts)]
    exact parts_of_mem_flatAll ts
  | .literal .null | .literal (.bool _) | .literal (.int _) | .literal (.float _)
  | .literal (.str _) | .literal (.arr _) | .literal (.obj _) | .array _ | .record _
  | .any | .null | .primitive _ | .emptyObject | .named _ => by
    simp [flat, parts]

theorem parts_of_mem_flatAll : (ts : List TypeExpr) → ∀ u ∈ flatAll ts, u.parts = [u]
  | [] => by simp [flatAll]
  | t :: rest => by
    rw [flatAll, List.forall_mem_append]
    exact ⟨parts_of_mem_flat t, parts_of_mem_flatAll rest⟩
end

@[simp] theorem nulls_union_nil : (union []).nulls = 0 := rfl

/-- The alternatives of a union are those of its members. -/
@[simp] theorem nulls_union_cons (t : TypeExpr) (rest : List TypeExpr) :
    (union (t :: rest)).nulls = t.nulls + (union rest).nulls := by
  simp only [nulls, flat, parts_ofParts (parts_of_mem_flatAll _)]
  rw [flatAll, List.countP_append]

theorem nulls_union_eq_zero {ts : List TypeExpr} (h : ∀ t ∈ ts, t.nulls = 0) :
    (union ts).nulls = 0 := by
  induction ts with
  | nil => rfl
  | cons t rest ih =>
    obtain ⟨ht, hrest⟩ := List.forall_mem_cons.mp h
    rw [nulls_union_cons, ht, ih hrest]

end TypeExpr

/-! ## Nodes -/

/-- Each member of a union is referred to as a node on its own. -/
theorem exists_of_mem_referMembers {members : List SchemaNode} {name : String} {number : Nat}
    {names : Naming.Sanitizer} {t : TypeExpr}
    (h : t ∈ (referMembers members name number names).result) :
    ∃ m ∈ members, ∃ hint names', t = (refer m hint names').result := by
  induction members generalizing number names with
  | nil =>
    rw [referMembers] at h
    cases h
  | cons member rest ih =>
    rw [referMembers] at h
    rcases List.mem_cons.mp h with rfl | h
    · exact ⟨member, List.mem_cons_self, _, _, rfl⟩
    · obtain ⟨m, hm, hrefer⟩ := ih h
      exact ⟨m, List.mem_cons_of_mem _ hm, hrefer⟩

/-- A description changes nothing in the type. -/
theorem refer_withDescription (n : SchemaNode) (description : Json) (hint : String)
    (names : Naming.Sanitizer) :
    refer (n.withDescription description) hint names = refer n hint names := by
  cases n with
  | object fields isOpen note =>
    cases fields <;> cases isOpen <;>
      simp only [SchemaNode.withDescription, SchemaNode.withNote, refer]
  | _ => simp only [SchemaNode.withDescription, SchemaNode.withNote, refer]

theorem nullableMember?_eq_none {members : List SchemaNode} (h : ∀ m ∈ members, m.isNull = false) :
    nullableMember? members = none := by
  rw [nullableMember?, if_neg]
  simpa using h

/-- Where null is neither seen nor hidden there is none among the alternatives. -/
theorem nulls_refer_eq_zero (n : SchemaNode) (hseen : n.isNullable = false) (hhidden : ¬n.HidesNull)
    (hint : String) (names : Naming.Sanitizer) : (refer n hint names).result.nulls = 0 := by
  match n with
  | .any note => rw [refer]; rfl
  | .null note => cases hseen
  | .primitive kind note => rw [refer]; rfl
  | .literal value note =>
    rw [SchemaNode.hidesNull_literal_iff] at hhidden
    rw [refer]
    cases value with
    | null => exact absurd rfl hhidden
    | _ => rfl
  | .object fields isOpen note =>
    by_cases hempty : fields = [] ∧ isOpen = false
    · obtain ⟨rfl, rfl⟩ := hempty
      rw [refer]
      rfl
    · rw [refer]
      · rfl
      · rintro rfl rfl
        exact hempty ⟨rfl, rfl⟩
  | .array items note =>
    rw [refer]
    split <;> rfl
  | .record values note =>
    rw [refer]
    split <;> rfl
  | .union members note =>
    -- no member is null itself, so that the union is written member by member
    have hplain := SchemaNode.isNullable_union.mp hseen
    rw [refer, nullableMember?_eq_none hplain]
    dsimp only
    split
    · rfl
    · refine TypeExpr.nulls_union_eq_zero fun t ht => ?_
      obtain ⟨m, hm, hint', names', rfl⟩ :=
        exists_of_mem_referMembers ((TypeExpr.dedupe_spec _).1 t ht)
      have hlt := List.sizeOf_lt_of_mem hm
      refine nulls_refer_eq_zero m ?_ (fun h => hhidden (.deeper hplain hm h)) hint' names'
      cases hm' : m.isNullable with
      | false => rfl
      | true => exact absurd (.member hplain hm hm') hhidden
termination_by sizeOf n

/-! ## Null let in -/

theorem isNull_of_isNullable {n : SchemaNode} (h : n.isNullable = false) : n.isNull = false := by
  cases n with
  | null note => cases h
  | _ => rfl

section
variable {n : SchemaNode} (hn : n.IsDefinite) (hseen : n.isNullable = false)
include hn hseen

/-- Null is let in behind the type. -/
theorem refer_withNull (hint : String) (names : Naming.Sanitizer) :
    refer n.withNull hint names = (refer n hint names).map fun t => .union [t, .null] := by
  have hnull : (SchemaNode.null {}).isNull = true := rfl
  have hmember : nullableMember? [n.withDescription .null, .null {}] =
      some (n.withDescription .null) := by
    simp [nullableMember?, hnull, isNull_of_isNullable hseen]
  rw [SchemaNode.withNull_of_not_isNullable hn hseen, refer, hmember]
  dsimp only
  rw [refer_withDescription]

/-- In a declaration of its own null is let in behind the type as well. -/
theorem bodyOf_withNull (name : String) (names : Naming.Sanitizer) :
    (bodyOf n.withNull name names).result = .alias (.union
      (TypeExpr.dedupe [(refer n (Naming.numbered name 1) names).result, .null])) := by
  rw [SchemaNode.withNull_of_not_isNullable hn hseen, bodyOf]
  simp only [referMembers, refer_withDescription, refer, Hoisted.andThen, Hoisted.map,
    Hoisted.plain]

end

/-- Of two types one may be left out. -/
theorem TypeExpr.nulls_dedupe_pair_le (t u : TypeExpr) :
    (union (dedupe [t, u])).nulls ≤ t.nulls + u.nulls := by
  rw [dedupe]
  simp only [List.foldl_cons, List.foldl_nil, List.any_nil, Bool.false_eq_true, if_false,
    List.nil_append, List.any_cons, Bool.or_false]
  split <;> simp

/-- What is known of null in a node without `any`, and of the node with null let in.  The test for
null is exact unless null is hidden.  A document with the keyword `nullable` put in is converted to
the node with null let in, which accepts null and nothing else that is new.  A node in which null
can be seen stays as it is; in any other null stands once among the alternatives of the type, unless
it was hidden there. -/
theorem nullability_of_ofDocument {document : Json} {external? : Option (Json → Except Fault Json)}
    {limit : Schema.ReferenceLimit} {node : SchemaNode}
    (h : Schema.ofDocument document external? limit = .ok node)
    (hdefinite : node.Everywhere IsDefinite) :
    ((node.isNullable = true ↔ node.accepts .null = true) ↔ ¬node.HidesNull) ∧
    (∀ entries : Entries Json, document = .obj entries →
      (∀ v ∈ entries.get? "nullable", v.isScalar = true) →
      Schema.ofDocument (.obj (entries.insert "nullable" (.bool true))) external? limit =
        .ok node.withNull) ∧
    (∀ v, node.withNull.accepts v = true ↔ v = .null ∨ node.accepts v = true) ∧
    (node.isNullable = true → node.withNull = node) ∧
    (node.isNullable = false → ¬node.HidesNull → ∀ name names,
      (refer node name names).result.nulls = 0 ∧
      (refer node.withNull name names).result.nulls = 1 ∧
      ∃ type, (bodyOf node.withNull name names).result = .alias type ∧ type.nulls ≤ 1) := by
  have hnode : node.IsDefinite := hdefinite node node.self_mem_subnodes
  refine ⟨SchemaNode.isNullable_iff_accepts_null_iff hdefinite, ?_,
    fun v => SchemaNode.accepts_withNull_iff, SchemaNode.withNull_of_isNullable, ?_⟩
  · rintro entries rfl hscalar
    exact Schema.ofDocument_insert_nullable hscalar h
  · intro hseen hhidden name names
    have hnone := nulls_refer_eq_zero node hseen hhidden
    refine ⟨hnone name names, ?_, _, bodyOf_withNull hnode hseen name names, ?_⟩
    · rw [refer_withNull hnode hseen, Hoisted.map]
      simp only [TypeExpr.nulls_union_cons, TypeExpr.nulls_union_nil, hnone]
      rfl
    · refine (TypeExpr.nulls_dedupe_pair_le _ _).trans ?_
      rw [hnone]
      exact Nat.le_refl _

/-- A document of alternatives, some of them under a description of their own. -/
def alternativesDocument : Entries Json :=
  [("anyOf", .arr [.obj [("type", .str "string")],
    .obj [("description", .str "d"), ("enum", .arr [.int 1, .bool true])]])]

/-- The node of `alternativesDocument`. -/
def alternativesNode : SchemaNode :=
  .union [.primitive .string {},
    .union [.literal (.int 1) {}, .literal (.bool true) {}] { description := .str "d" }] {}

theorem nullability_of_ofDocument_alternatives :
    Schema.ofDocument (.obj alternativesDocument) none (.ofInt 16) = .ok alternativesNode ∧
      alternativesNode.Everywhere IsDefinite ∧
      Schema.ofDocument (.obj (alternativesDocument.insert "nullable" (.bool true))) none
        (.ofInt 16) = .ok alternativesNode.withNull ∧
      (∀ v, alternativesNode.withNull.accepts v = true ↔
        v = .null ∨ alternativesNode.accepts v = true) ∧
      (refer alternativesNode.withNull "Kind" sanitizer).result.nulls = 1 := by
  have hnode : Schema.ofDocument (.obj alternativesDocument) none (.ofInt 16) =
      .ok alternativesNode := by cbv
  have hdefinite : alternativesNode.Everywhere IsDefinite := by
    simp [alternativesNode, SchemaNode.everywhere_union, IsDefinite]
  have hhidden : ¬alternativesNode.HidesNull := by
    intro h
    simp [alternativesNode, SchemaNode.hidesNull_union_iff, SchemaNode.hidesNull_literal_iff,
      SchemaNode.isNullable, SchemaNode.isNull] at h
    cases h
  obtain ⟨-, hinsert, hvalues, -, htype⟩ := nullability_of_ofDocument hnode hdefinite
  exact ⟨hnode, hdefinite, hinsert _ rfl (by simp [alternativesDocument, Entries.get?_cons]),
    hvalues, (htype rfl hhidden "Kind" sanitizer).2.1⟩

/-- The literal null is a value in which null is not seen, and it is written twice once null is let
in. -/
theorem not_isNullable_of_null_enumeration : ∃ node node',
    Schema.ofDocument (.obj [("enum", .arr [.null])]) none (.ofInt 16) = .ok node ∧
      node.Everywhere IsDefinite ∧ node.accepts .null = true ∧ node.isNullable = false ∧
      Schema.ofDocument (.obj [("enum", .arr [.null]), ("nullable", .bool true)]) none
        (.ofInt 16) = .ok node' ∧
      (refer node' "Kind" sanitizer).result.chars = "null | null".toList := by
  refine ⟨.literal .null {}, .union [.literal .null {}, .null {}] {}, by cbv, ?_, ?_, rfl, by cbv,
    by cbv⟩
  · simp [IsDefinite]
  · rw [SchemaNode.accepts, Json.same_null_iff]

end SchemaTypings.Typescript
