/-
  SchemaTypings.Proofs.Typescript.Shape

  What a type is apart from the way it is written: the list of its variants, with no names for types
  and no unions in unions.  Two types are the same if each variant of one is a variant of the other,
  so that neither order nor repetition counts.
-/
import SchemaTypings.Schema.Node
import Mathlib.Data.List.Forall2

namespace SchemaTypings.Typescript

/-- One variant of a type. -/
inductive Variant where
  | any
  | null
  | primitive (kind : Primitive)
  | literal (value : Json)
  /-- An object with the listed fields; an open one has other keys too. -/
  | object (fields : List (Member (List Variant))) (isOpen : Bool)
  | array (element : List Variant)
  | record (value : List Variant)

/-- A type, by its variants. -/
abbrev Shape := List Variant

/-- The variant of a literal; null is no literal of its own. -/
def Variant.ofLiteral : Json → Variant
  | .null => .null
  | value => .literal value

/-! ## Sameness -/

namespace Variant

mutual
/-- Whether two variants are the same. -/
def Same : Variant → Variant → Prop
  | .any, .any | .null, .null => True
  | .primitive kind, .primitive other => kind = other
  | .literal value, .literal other => value = other
  | .object fields isOpen, .object others otherOpen =>
    isOpen = otherOpen ∧ SameFields fields others
  | .array element, .array other => AllAmong element other ∧ ∀ w ∈ other, SomeSame element w
  | .record value, .record other => AllAmong value other ∧ ∀ w ∈ other, SomeSame value w
  | _, _ => False

/-- Whether all variants are among those of another type. -/
def AllAmong : Shape → Shape → Prop
  | [], _ => True
  | v :: rest, t => (∃ w ∈ t, v.Same w) ∧ AllAmong rest t

/-- Whether one of the variants is the same as another. -/
def SomeSame : Shape → Variant → Prop
  | [], _ => False
  | v :: rest, w => v.Same w ∨ SomeSame rest w

/-- Whether two rows of fields are the same one by one. -/
def SameFields : List (Member Shape) → List (Member Shape) → Prop
  | [], [] => True
  | field :: rest, other :: others => SameField field other ∧ SameFields rest others
  | _, _ => False

/-- Whether two fields have one name, both may be missing or neither, and have the same type. -/
def SameField : Member Shape → Member Shape → Prop
  | ⟨name, optional, type⟩, other =>
    name = other.name ∧ optional = other.optional ∧ AllAmong type other.type ∧
      ∀ w ∈ other.type, SomeSame type w
end

end Variant

namespace Shape

/-- Whether each variant of either type is the same as one of the other. -/
def Same (s t : Shape) : Prop :=
  (∀ v ∈ s, ∃ w ∈ t, v.Same w) ∧ ∀ w ∈ t, ∃ v ∈ s, v.Same w

end Shape

namespace Variant

theorem allAmong_iff {s t : Shape} : AllAmong s t ↔ ∀ v ∈ s, ∃ w ∈ t, v.Same w := by
  induction s with
  | nil => simp [AllAmong]
  | cons v rest ih => rw [AllAmong, ih, List.forall_mem_cons]

theorem someSame_iff {s : Shape} {w : Variant} : SomeSame s w ↔ ∃ v ∈ s, v.Same w := by
  induction s with
  | nil => simp [SomeSame]
  | cons v rest ih =>
    rw [SomeSame, ih]
    simp

theorem same_shape_iff {s t : Shape} :
    (AllAmong s t ∧ ∀ w ∈ t, SomeSame s w) ↔ Shape.Same s t := by
  simp only [allAmong_iff, someSame_iff, Shape.Same]

theorem same_array_iff {s t : Shape} : (array s).Same (array t) ↔ Shape.Same s t := by
  rw [Same, same_shape_iff]

theorem same_record_iff {s t : Shape} : (record s).Same (record t) ↔ Shape.Same s t := by
  rw [Same, same_shape_iff]

/-- Two fields are the same if they have one name, both may be missing or neither, and their types
are the same. -/
theorem sameField_iff {field other : Member Shape} :
    SameField field other ↔ field.name = other.name ∧ field.optional = other.optional ∧
      Shape.Same field.type other.type := by
  cases field
  rw [SameField, same_shape_iff]

theorem sameFields_iff {fields others : List (Member Shape)} :
    SameFields fields others ↔ List.Forall₂ SameField fields others := by
  induction fields generalizing others with
  | nil => cases others <;> simp [SameFields]
  | cons field rest ih =>
    cases others with
    | nil => simp [SameFields]
    | cons other others => rw [SameFields, ih, List.forall₂_cons]

theorem same_object_iff {fields others : List (Member Shape)} {isOpen otherOpen : Bool} :
    (object fields isOpen).Same (object others otherOpen) ↔
      isOpen = otherOpen ∧ List.Forall₂ SameField fields others := by
  rw [Same, sameFields_iff]

mutual
/-- A variant is the same as itself. -/
theorem same_refl : (v : Variant) → v.Same v
  | .any | .null => by rw [Same]; trivial
  | .primitive _ | .literal _ => by rw [Same]
  | .array s => same_array_iff.mpr
      ⟨fun v hv => ⟨v, hv, same_refl_of_mem s v hv⟩, fun v hv => ⟨v, hv, same_refl_of_mem s v hv⟩⟩
  | .record s => same_record_iff.mpr
      ⟨fun v hv => ⟨v, hv, same_refl_of_mem s v hv⟩, fun v hv => ⟨v, hv, same_refl_of_mem s v hv⟩⟩
  | .object fields _ => same_object_iff.mpr ⟨rfl, sameFields_iff.mp (sameFields_refl fields)⟩

theorem same_refl_of_mem : (s : List Variant) → ∀ v ∈ s, v.Same v
  | [] => by simp
  | v :: rest => List.forall_mem_cons.mpr ⟨same_refl v, same_refl_of_mem rest⟩

theorem sameFields_refl : (fields : List (Member (List Variant))) → SameFields fields fields
  | [] => by rw [SameFields]; trivial
  | field :: rest => by
    rw [SameFields]
    exact ⟨sameField_refl field, sameFields_refl rest⟩

theorem sameField_refl : (field : Member (List Variant)) → SameField field field
  | ⟨_, _, s⟩ => sameField_iff.mpr ⟨rfl, rfl, fun v hv => ⟨v, hv, same_refl_of_mem s v hv⟩,
      fun v hv => ⟨v, hv, same_refl_of_mem s v hv⟩⟩
end

mutual
/-- Sameness goes both ways. -/
theorem Same.symm : (v : Variant) → {w : Variant} → v.Same w → w.Same v
  | .array s, w, h => by
    cases w with
    | array t => exact same_array_iff.mpr (same_symm_of_shape s (same_array_iff.mp h))
    | _ => simp [Same] at h
  | .record s, w, h => by
    cases w with
    | record t => exact same_record_iff.mpr (same_symm_of_shape s (same_record_iff.mp h))
    | _ => simp [Same] at h
  | .object fields _, w, h => by
    cases w with
    | object others _ =>
      obtain ⟨hopen, hfields⟩ := same_object_iff.mp h
      have hothers := SameFields.symm fields (sameFields_iff.mpr hfields)
      exact same_object_iff.mpr ⟨hopen.symm, sameFields_iff.mp hothers⟩
    | _ => simp [Same] at h
  | .any, w, h | .null, w, h | .primitive _, w, h | .literal _, w, h => by
    cases w <;> simp_all [Same]

theorem same_symm_of_shape (s : List Variant) {t : Shape} (h : Shape.Same s t) :
    Shape.Same t s :=
  have hsymm := same_symm_of_mem s
  ⟨fun w hw => (h.2 w hw).imp fun v hv => ⟨hv.1, hsymm v hv.1 hv.2⟩,
    fun v hv => (h.1 v hv).imp fun w hw => ⟨hw.1, hsymm v hv hw.2⟩⟩

theorem same_symm_of_mem : (s : List Variant) → ∀ v ∈ s, ∀ {w : Variant}, v.Same w → w.Same v
  | [] => by simp
  | v :: rest => List.forall_mem_cons.mpr ⟨fun h => Same.symm v h, same_symm_of_mem rest⟩

theorem SameFields.symm : (fields : List (Member (List Variant))) →
    {others : List (Member (List Variant))} → SameFields fields others → SameFields others fields
  | [], others, h => by
    cases sameFields_iff.mp h
    exact sameFields_iff.mpr .nil
  | field :: rest, others, h => by
    cases sameFields_iff.mp h with
    | cons hfield hrest =>
      have hothers := SameFields.symm rest (sameFields_iff.mpr hrest)
      exact sameFields_iff.mpr (.cons (SameField.symm field hfield) (sameFields_iff.mp hothers))

theorem SameField.symm : (field : Member (List Variant)) → {other : Member (List Variant)} →
    SameField field other → SameField other field
  | ⟨_, _, s⟩, other, h => by
    obtain ⟨hname, hoptional, hsame⟩ := sameField_iff.mp h
    exact sameField_iff.mpr ⟨hname.symm, hoptional.symm, same_symm_of_shape s hsame⟩
end

end Variant

namespace Shape

variable {s t s' t' : Shape}

/-- Types of one variant each are the same if the variants are. -/
theorem same_singleton {v w : Variant} (h : v.Same w) : Same [v] [w] := by
  constructor
  · intro x hx
    rw [List.mem_singleton] at hx
    subst hx
    exact ⟨w, List.mem_singleton_self w, h⟩
  · intro x hx
    rw [List.mem_singleton] at hx
    subst hx
    exact ⟨v, List.mem_singleton_self v, h⟩

theorem Same.append (h : Same s t) (h' : Same s' t') : Same (s ++ s') (t ++ t') := by
  constructor
  · intro v hv
    rcases List.mem_append.mp hv with hv | hv
    · obtain ⟨w, hw, hvw⟩ := h.1 v hv
      exact ⟨w, List.mem_append_left _ hw, hvw⟩
    · obtain ⟨w, hw, hvw⟩ := h'.1 v hv
      exact ⟨w, List.mem_append_right _ hw, hvw⟩
  · intro w hw
    rcases List.mem_append.mp hw with hw | hw
    · obtain ⟨v, hv, hvw⟩ := h.2 w hw
      exact ⟨v, List.mem_append_left _ hv, hvw⟩
    · obtain ⟨v, hv, hvw⟩ := h'.2 w hw
      exact ⟨v, List.mem_append_right _ hv, hvw⟩

/-- Only which variants a type has counts, not their order or how often they are listed. -/
theorem Same.congr (h : Same s t) (hs : ∀ v, v ∈ s' ↔ v ∈ s) (ht : ∀ v, v ∈ t' ↔ v ∈ t) :
    Same s' t' := by
  simp only [Same, hs, ht]
  exact h

end Shape

/-! ## The type of a node -/

section
variable (rename : String → String)

mutual
/-- The type that a node stands for, with the names of fields changed. -/
def shapeWith : SchemaNode → Shape
  | .any _ => [.any]
  | .null _ => [.null]
  | .primitive kind _ => [.primitive kind]
  | .literal value _ => [.ofLiteral value]
  | .object fields isOpen _ => [.object (fieldShapes fields) isOpen]
  | .array items _ => [.array (shapeWith items)]
  | .record values _ => [.record (shapeWith values)]
  | .union members _ => memberShapes members

/-- The fields with their types. -/
def fieldShapes : List (Member SchemaNode) → List (Member Shape)
  | [] => []
  | field :: rest => fieldShape field :: fieldShapes rest

/-- The field with its type. -/
def fieldShape : Member SchemaNode → Member Shape
  | ⟨name, optional, node⟩ => ⟨rename name, optional, shapeWith node⟩

/-- The variants of all members. -/
def memberShapes : List SchemaNode → Shape
  | [] => []
  | member :: rest => shapeWith member ++ memberShapes rest
end

theorem memberShapes_eq_flatMap (members : List SchemaNode) :
    memberShapes rename members = members.flatMap (shapeWith rename) := by
  induction members with
  | nil => rfl
  | cons member rest ih => rw [memberShapes, ih, List.flatMap_cons]

end

/-- The type that a node stands for. -/
def shapeOf (node : SchemaNode) : Shape := shapeWith id node

end SchemaTypings.Typescript
