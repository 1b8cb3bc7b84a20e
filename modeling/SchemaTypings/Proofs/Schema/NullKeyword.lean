/-
  SchemaTypings.Proofs.Schema.NullKeyword

  The keyword `nullable` of a document.  No other keyword is read with it, and a conversion that
  succeeds does not come back to the document by a reference, so the document with `nullable` put in
  is converted to the same node with null let in.
-/
import SchemaTypings.Proofs.Schema.Nullability
import SchemaTypings.Proofs.Schema.Reached

namespace SchemaTypings

/-! ## Keywords that are not looked at -/

/-- Whether two objects agree about every key but one. -/
def Entries.AgreeBut (key : String) (es es' : Entries Json) : Prop :=
  ∀ other, key ≠ other → es.get? other = es'.get? other

theorem Entries.agreeBut_insert (key : String) (es : Entries Json) (value : Json) :
    AgreeBut key (es.insert key value) es :=
  fun _ h => get?_insert_of_ne es value h

/-- To put in the value that is there already changes nothing. -/
theorem Entries.insert_of_get? {es : Entries Json} {key : String} {value : Json}
    (h : es.get? key = some value) : es.insert key value = es := by
  induction es with
  | nil => cases h
  | cons e rest ih =>
    obtain ⟨k, v⟩ := e
    rw [get?_cons] at h
    rw [insert]
    split at h
    · next hk =>
      cases h
      rw [if_pos hk]
    · next hk => rw [if_neg hk, ih h]

namespace Schema

/-- The keywords that are read where the type of a schema is known. -/
def typedKeywords : List String :=
  constraintKeywords ++ ["required", "properties", "additionalProperties", "items"]

section
variable {key : String} {schema schema' : Entries Json}
  (h : Entries.AgreeBut key schema schema') (hkey : key ∉ typedKeywords)
include h hkey

theorem get?_of_agreeBut {keyword : String} (hkeyword : keyword ∈ typedKeywords) :
    schema.get? keyword = schema'.get? keyword :=
  h keyword fun heq => hkey (heq ▸ hkeyword)

theorem constraints_of_agreeBut : constraints schema = constraints schema' := by
  refine List.filterMap_congr fun keyword hkeyword => ?_
  rw [get?_of_agreeBut h hkey (List.mem_append_left _ hkeyword)]

theorem planOfObject_of_agreeBut (note : Note) :
    planOfObject schema note = planOfObject schema' note := by
  have hget : ∀ keyword ∈ typedKeywords, schema.get? keyword = schema'.get? keyword :=
    fun _ => get?_of_agreeBut h hkey
  rw [planOfObject, planOfObject, Entries.field, Entries.field, Entries.field, Entries.field,
    hget "required" (by decide), hget "properties" (by decide),
    hget "additionalProperties" (by decide)]

theorem planOfArray_of_agreeBut (note : Note) :
    planOfArray schema note = planOfArray schema' note := by
  have hitems : schema.get? "items" = schema'.get? "items" :=
    get?_of_agreeBut h hkey (by decide)
  simp only [planOfArray, hitems]

theorem planOfTyped_of_agreeBut (type description : Json) :
    planOfTyped schema type description = planOfTyped schema' type description := by
  have hget : ∀ keyword ∈ typedKeywords, schema.get? keyword = schema'.get? keyword :=
    fun _ => get?_of_agreeBut h hkey
  -- Along the lists of one type, as the plan is made.
  induction hsize : sizeOf type using Nat.strongRecOn generalizing type with
  | ind size ih =>
    rw [planOfTyped.eq_def, planOfTyped.eq_def schema']
    simp only [constraints_of_agreeBut h hkey, planOfObject_of_agreeBut h hkey,
      planOfArray_of_agreeBut h hkey, Entries.has_eq_isSome, hget "properties" (by decide),
      hget "additionalProperties" (by decide), hget "items" (by decide)]
    split
    · rfl
    · rfl
    · next only =>
      refine ih (sizeOf only) ?_ only rfl
      rw [← hsize]
      simp
      omega
    · rfl
    · rfl
    · rfl
    · rfl

end

theorem find?_refusedKeywords_of_agreeBut {key : String} {schema schema' : Entries Json}
    (h : Entries.AgreeBut key schema schema') (hkey : key ∉ refusedKeywords) :
    refusedKeywords.find? schema.has = refusedKeywords.find? schema'.has := by
  rw [← List.head?_filter, ← List.head?_filter]
  refine congrArg List.head? (List.filter_congr fun keyword hkeyword => ?_)
  have hne : key ≠ keyword := fun heq => hkey (heq ▸ hkeyword)
  rw [Entries.has_eq_isSome, Entries.has_eq_isSome, h keyword hne]

section
variable {schema schema' : Entries Json} (h : Entries.AgreeBut "nullable" schema schema')
include h

theorem planOfEntries_of_agreeBut : planOfEntries schema = planOfEntries schema' := by
  simp only [planOfEntries, Entries.field, h "description" (by decide), h "const" (by decide),
    h "enum" (by decide), h "anyOf" (by decide), h "oneOf" (by decide), h "allOf" (by decide),
    h "type" (by decide), planOfTyped_of_agreeBut h (by decide)]

theorem planOfReference_of_agreeBut : planOfReference schema = planOfReference schema' := by
  simp only [planOfReference, h "$ref" (by decide), h "description" (by decide),
    planOfEntries_of_agreeBut h]

end

/-! ## References into the document -/

/-- A pointer into an object leads to the object itself, to a scalar under a key that is changed, or
to the same value after the change. -/
theorem resolve_insert {entries : Entries Json} {key fragment : String} {target : Json}
    (value : Json) (hscalar : ∀ v ∈ entries.get? key, v.isScalar = true)
    (h : Pointer.resolve (.obj entries) fragment = .ok (some target)) :
    target = .obj entries ∨ entries.get? key = some target ∨
      Pointer.resolve (.obj (entries.insert key value)) fragment = .ok (some target) := by
  rw [Pointer.resolve] at h ⊢
  cases htokens : Pointer.tokens fragment.toList with
  | nil =>
    rw [htokens] at h
    cases h
    exact .inl rfl
  | cons token rest =>
    rw [htokens, Pointer.walk, Pointer.step] at h
    rw [Pointer.walk, Pointer.step]
    by_cases hkey : key = String.ofList token
    · subst hkey
      cases hget : entries.get? (String.ofList token) with
      | none => rw [hget] at h; cases h
      | some v =>
        rw [hget] at h
        have hv := hscalar v hget
        cases rest with
        | nil =>
          cases h
          exact .inr (.inl rfl)
        | cons more rest =>
          -- There is no step down from a scalar.
          cases v with
          | arr items => cases hv
          | obj entries => cases hv
          | _ => cases h
    · rw [Entries.get?_insert_of_ne entries value hkey]
      exact .inr (.inr h)

/-- A reference leads to what a pointer into the document or a source of others gives. -/
theorem target_eq_ok_iff {sources : Sources} {reference target : Json} {location : Location} :
    sources.target reference location = .ok target ↔
      (∃ fragment, localFragment? reference = some fragment ∧
        Pointer.resolve sources.root fragment = .ok (some target)) ∨
      localFragment? reference = none ∧
        ∃ resolver, sources.external? = some resolver ∧ resolver reference = .ok target := by
  unfold Sources.target
  constructor
  · intro h
    split at h
    · next fragment hlocal =>
      split at h
      · next hresolve =>
        cases h
        exact .inl ⟨fragment, hlocal, hresolve⟩
      · cases h
      · cases h
    · next hlocal =>
      split at h
      · next resolver hresolver =>
        split at h
        · next htarget =>
          cases h
          exact .inr ⟨hlocal, resolver, hresolver, htarget⟩
        · cases h
      · cases h
  · rintro (⟨fragment, hlocal, hresolve⟩ | ⟨hlocal, resolver, hresolver, htarget⟩)
    · simp only [hlocal, hresolve]
    · simp only [hlocal, hresolver, htarget]

/-- Of the values that are neither lists nor objects, `true` alone has a structural form. -/
theorem eq_true_of_succeeds {sources : Sources} {stop : Json → Location → ConversionError}
    {budget : Nat} {value : Json} (hscalar : value.isScalar = true)
    (h : Succeeds sources stop budget value) : value = .bool true := by
  obtain ⟨location, node, h⟩ := h
  rw [convert_eq_run] at h
  cases value with
  | bool b =>
    cases b with
    | true => rfl
    | false => cases h
  | arr items => cases hscalar
  | obj entries => cases hscalar
  | _ => cases h

section
variable {entries : Entries Json} {external? : Option (Json → Except Fault Json)}

/-- A reference that leads to a schema with a structural form leads there still when null is let
in, unless it leads to the document itself. -/
theorem target_insert_nullable (hscalar : ∀ v ∈ entries.get? "nullable", v.isScalar = true)
    {stop : Json → Location → ConversionError} {budget : Nat} {reference target : Json}
    {location : Location}
    (h : (Sources.mk (.obj entries) external?).target reference location = .ok target)
    (hself : target ≠ .obj entries)
    (hsucceeds : Succeeds ⟨.obj entries, external?⟩ stop budget target) (location' : Location) :
    (Sources.mk (.obj (entries.insert "nullable" (.bool true))) external?).target reference
      location' = .ok target := by
  rw [target_eq_ok_iff] at h ⊢
  refine h.imp_left fun ⟨fragment, hlocal, hresolve⟩ => ⟨fragment, hlocal, ?_⟩
  rcases resolve_insert (.bool true) hscalar hresolve with hroot | hkeyword | hsame
  · exact absurd hroot hself
  · -- The value under the keyword is a schema itself, and putting it in once more changes nothing.
    cases eq_true_of_succeeds (hscalar target hkeyword) hsucceeds
    rw [Entries.insert_of_get? hkeyword]
    exact hresolve
  · exact hsame

theorem withNull_withNullable (schema : Entries Json) (node : SchemaNode) :
    (withNullable schema node).withNull = node.withNull := by
  unfold withNullable
  split
  · exact SchemaNode.withNull_withNull node
  · rfl

/-- The document with null let in is converted to the node with null let in. -/
theorem ofDocument_insert_nullable {limit : ReferenceLimit} {node : SchemaNode}
    (hscalar : ∀ v ∈ entries.get? "nullable", v.isScalar = true)
    (h : ofDocument (.obj entries) external? limit = .ok node) :
    ofDocument (.obj (entries.insert "nullable" (.bool true))) external? limit =
      .ok node.withNull := by
  -- All references on the way still lead where they did, as none of them leads to the document.
  have hkept : convert ⟨.obj (entries.insert "nullable" (.bool true)), external?⟩ limit.failure
      limit.budget (.obj entries) .root = .ok node := by
    let sources : Sources := ⟨.obj entries, external?⟩
    let leads (reference target : Json) : Prop := ∃ l, sources.target reference l = .ok target
    have hleads : ∀ reference target l, leads reference target →
        ∀ other, sources.target reference l = .ok other → other = target := by
      rintro reference target l ⟨l', htarget⟩ other hother
      have hsame : sources.target reference l = .ok target :=
        target_eq_ok_iff.mpr (target_eq_ok_iff.mp htarget)
      exact Except.ok.inj (hother.symm.trans hsame)
    have hsucceeds : Succeeds sources limit.failure limit.budget (.obj entries) := ⟨_, node, h⟩
    refine convert_eq_ok_of_same leads (Nat.le_refl _) ?_ h
    intro reached reference hreached href l target htarget
    have hlead : leads reference target := ⟨l, htarget⟩
    obtain ⟨rest, -, hthere⟩ := (hreached.target href hlead).succeeds hleads hsucceeds
    refine ⟨hlead, target_insert_nullable hscalar htarget ?_ hthere⟩
    rintro rfl
    exact hreached.not_leads_start href hleads hsucceeds hlead
  have hagree := Entries.agreeBut_insert "nullable" entries (.bool true)
  rw [ofDocument, convert_eq_run, planOf, find?_refusedKeywords_of_agreeBut hagree (by decide)]
  rw [convert_eq_run, planOf] at hkept
  cases hrefused : refusedKeywords.find? entries.has with
  | some keyword => rw [hrefused] at hkept; cases hkept
  | none =>
    rw [hrefused] at hkept
    dsimp only at hkept ⊢
    rw [run_map] at hkept ⊢
    obtain ⟨plain, hplain, rfl⟩ := exists_of_map_eq_ok hkept
    rw [planOfReference_of_agreeBut hagree, hplain, withNull_withNullable]
    change Except.ok (withNullable (entries.insert "nullable" (.bool true)) plain) = _
    rw [withNullable, Entries.get?_insert_self]

end

end Schema
end SchemaTypings
