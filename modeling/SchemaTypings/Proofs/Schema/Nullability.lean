/-
  SchemaTypings.Proofs.Schema.Nullability

  Where null can be seen among the values of a node.  The test looks at the node and at its members
  alone; null is hidden from it in a literal, and in a union that is a member of another.
-/
import SchemaTypings.Proofs.Schema.Denotation
import SchemaTypings.Proofs.Schema.Subnode

namespace SchemaTypings

theorem Json.same_null_iff {value : Json} : value.same .null = true ↔ value = .null := by
  cases value <;> simp [Json.same, Json.sameNumber]

namespace SchemaNode

/-- Whether a node says of which kind its values are. -/
def IsDefinite : SchemaNode → Prop
  | .any _ => False
  | _ => True

/-- Null is a value of the node, but neither is the node null nor a member of it. -/
inductive HidesNull : SchemaNode → Prop where
  /-- The literal null, which is not the node of null. -/
  | literal (note : Note) : HidesNull (.literal .null note)
  /-- A member that is a union with null. -/
  | member {members : List SchemaNode} {note : Note} {m : SchemaNode}
      (hplain : ∀ m ∈ members, m.isNull = false) (hmem : m ∈ members) (h : m.isNullable = true) :
      HidesNull (.union members note)
  /-- A member that hides null itself. -/
  | deeper {members : List SchemaNode} {note : Note} {m : SchemaNode}
      (hplain : ∀ m ∈ members, m.isNull = false) (hmem : m ∈ members) (h : m.HidesNull) :
      HidesNull (.union members note)

theorem isNullable_union {members : List SchemaNode} {note : Note} :
    (union members note).isNullable = false ↔ ∀ m ∈ members, m.isNull = false := by
  simp [isNullable]

theorem hidesNull_literal_iff {value : Json} {note : Note} :
    (literal value note).HidesNull ↔ value = .null := by
  constructor
  · rintro ⟨⟩
    rfl
  · rintro rfl
    exact .literal note

theorem hidesNull_union_iff {members : List SchemaNode} {note : Note} :
    (union members note).HidesNull ↔ (∀ m ∈ members, m.isNull = false) ∧
      ∃ m ∈ members, m.isNullable = true ∨ m.HidesNull := by
  constructor
  · intro h
    cases h with
    | member hplain hmem h => exact ⟨hplain, _, hmem, .inl h⟩
    | deeper hplain hmem h => exact ⟨hplain, _, hmem, .inr h⟩
  · rintro ⟨hplain, m, hmem, h | h⟩
    · exact .member hplain hmem h
    · exact .deeper hplain hmem h

theorem HidesNull.isNullable {n : SchemaNode} (h : n.HidesNull) : n.isNullable = false := by
  cases h with
  | literal note => rfl
  | member hplain _ _ => exact isNullable_union.mpr hplain
  | deeper hplain _ _ => exact isNullable_union.mpr hplain

/-- A definite node accepts null where null can be seen, and where it is hidden. -/
theorem accepts_null_iff (n : SchemaNode) (hn : n.Everywhere IsDefinite) :
    n.accepts .null = true ↔ n.isNullable = true ∨ n.HidesNull := by
  match n with
  | .any note => exact (everywhere_any.mp hn).elim
  | .null note => exact ⟨fun _ => .inl rfl, fun _ => rfl⟩
  | .primitive kind note =>
    constructor
    · intro h
      cases kind <;> cases h
    · rintro (⟨⟨⟩⟩ | ⟨⟨⟩⟩)
  | .literal value note =>
    have hliteral : (literal value note).accepts .null = true ↔ value = .null := by
      rw [accepts, Json.same_null_iff]
    have hhides : (literal value note).HidesNull ↔ value = .null := hidesNull_literal_iff
    rw [hliteral, ← hhides]
    exact ⟨.inr, fun h => h.resolve_left Bool.false_ne_true⟩
  | .object fields isOpen note =>
    constructor
    · rintro ⟨⟩
    · rintro (⟨⟨⟩⟩ | ⟨⟨⟩⟩)
  | .array items note =>
    constructor
    · rintro ⟨⟩
    · rintro (⟨⟨⟩⟩ | ⟨⟨⟩⟩)
  | .record values note =>
    constructor
    · rintro ⟨⟩
    · rintro (⟨⟨⟩⟩ | ⟨⟨⟩⟩)
  | .union members note =>
    -- Of a member it is known by recursion; which of them is null decides what can be seen.
    have hmembers : ∀ m ∈ members, (m.accepts .null = true ↔ m.isNullable = true ∨ m.HidesNull) :=
      fun m hm => accepts_null_iff m ((everywhere_union.mp hn).2 m hm)
    by_cases hplain : ∀ m ∈ members, m.isNull = false
    · rw [isNullable_union.mpr hplain, hidesNull_union_iff, accepts_union]
      simp only [Bool.false_eq_true, false_or]
      exact (exists_congr fun m => and_congr_right (hmembers m)).trans (and_iff_right hplain).symm
    · have hnullable : (union members note).isNullable = true := by
        rw [← Bool.not_eq_false, isNullable_union]
        exact hplain
      exact ⟨fun _ => .inl hnullable, fun _ => accepts_null_of_isNullable hnullable⟩
termination_by sizeOf n
decreasing_by
  have := List.sizeOf_lt_of_mem hm
  simp only [SchemaNode.union.sizeOf_spec]
  omega

/-- The test for null is exact for a definite node unless null is hidden in it. -/
theorem isNullable_iff_accepts_null_iff {n : SchemaNode} (hn : n.Everywhere IsDefinite) :
    (n.isNullable = true ↔ n.accepts .null = true) ↔ ¬n.HidesNull := by
  rw [accepts_null_iff n hn]
  constructor
  · intro h hhides
    have hnullable := h.mpr (.inr hhides)
    rw [hhides.isNullable] at hnullable
    cases hnullable
  · exact fun hhides => ⟨.inl, fun h => h.resolve_right hhides⟩

/-! ## Null let in -/

theorem withNull_of_isNullable {n : SchemaNode} (h : n.isNullable = true) : n.withNull = n := by
  unfold withNull
  split
  · rfl
  · exact if_pos h

/-- A definite node without null in sight gets null beside it. -/
theorem withNull_of_not_isNullable {n : SchemaNode} (hn : n.IsDefinite)
    (h : n.isNullable = false) : n.withNull =
      .union [n.withDescription .null, .null {}] { description := n.description } := by
  unfold withNull
  split
  · exact hn.elim
  · rw [h, if_neg Bool.false_ne_true]

/-- Null is let in once. -/
theorem withNull_withNull (n : SchemaNode) : n.withNull.withNull = n.withNull := by
  by_cases hn : n.IsDefinite
  · refine withNull_of_isNullable ?_
    cases h : n.isNullable with
    | true => rwa [withNull_of_isNullable h]
    | false => simp [withNull_of_not_isNullable hn h, isNullable, isNull]
  · cases n with
    | any note => rfl
    | _ => exact absurd trivial hn

/-- Letting null in adds null and nothing else. -/
theorem accepts_withNull_iff {n : SchemaNode} {v : Json} :
    n.withNull.accepts v = true ↔ v = .null ∨ n.accepts v = true := by
  refine ⟨fun h => ?_, accepts_withNull⟩
  unfold withNull at h
  split at h
  · exact .inr rfl
  · split at h
    · exact .inr h
    · obtain ⟨m, hmem, hm⟩ := accepts_union.mp h
      simp only [List.mem_cons, List.not_mem_nil, or_false] at hmem
      rcases hmem with rfl | rfl
      · rw [accepts_withDescription] at hm
        exact .inr hm
      · cases v with
        | null => exact .inl rfl
        | _ => cases hm

end SchemaNode

end SchemaTypings
