/-
  SchemaTypings.Proofs.Schema.LocalReference

  References to places in the document.  The steps to a value are written as a fragment, each one
  behind a slash with its own tildes and slashes escaped.  The fragment is read as these steps, so a
  reference to it is converted as the value there.
-/
import SchemaTypings.Proofs.Schema.NullKeyword
import SchemaTypings.Proofs.Schema.Pointer

namespace SchemaTypings

/-! ## Sizes -/

theorem Leads.sizeOf_le {value target : Json} {steps : List String} (h : Leads value steps target) :
    sizeOf target ≤ sizeOf value := by
  induction h with
  | here value => exact Nat.le_refl _
  | key hvalue _ ih =>
    have hlt := Entries.sizeOf_lt_of_get? hvalue
    simp only [Json.obj.sizeOf_spec]
    omega
  | item hvalue _ ih =>
    have hlt := List.sizeOf_lt_of_mem (List.mem_of_getElem? hvalue)
    simp only [Json.arr.sizeOf_spec]
    omega

theorem length_le_sizeOf (items : List Json) : items.length ≤ sizeOf items := by
  induction items with
  | nil => exact Nat.zero_le _
  | cons item rest ih =>
    simp only [List.length_cons, List.cons.sizeOf_spec]
    omega

/-- No list of a document has more members than the document has parts. -/
theorem Leads.length_items_le {document : Json} {front : List String} {items : List Json}
    (h : Leads document front (.arr items)) : items.length ≤ sizeOf document := by
  have hle := h.sizeOf_le
  have hlength := length_le_sizeOf items
  simp only [Json.arr.sizeOf_spec] at hle
  omega

namespace Pointer

/-! ## Steps written as a fragment -/

/-- The fragment that leads down the steps. -/
def fragmentChars (steps : List String) : List Char :=
  '#' :: steps.flatMap fun step => '/' :: escape step.toList

/-- The fragment that leads down the steps, as a text. -/
def fragment (steps : List String) : String := String.ofList (fragmentChars steps)

theorem unescape_cons_of_ne {c : Char} (h : c ≠ '~') (rest : List Char) :
    unescape (c :: rest) = c :: unescape rest := by
  rw [unescape]
  · rintro _ rfl _
    exact h rfl
  · rintro _ rfl _
    exact h rfl

theorem escape_cons_of_ne {c : Char} (htilde : c ≠ '~') (hslash : c ≠ '/') (rest : List Char) :
    escape (c :: rest) = c :: escape rest := by
  rw [escape]
  · exact htilde
  · exact hslash

/-- An escaped step is read as the step, also where it looks like an escape itself. -/
theorem unescape_escape (step : List Char) : unescape (escape step) = step := by
  induction step with
  | nil => rfl
  | cons c rest ih =>
    by_cases htilde : c = '~'
    · subst htilde
      rw [escape, unescape, ih]
    · by_cases hslash : c = '/'
      · subst hslash
        rw [escape, unescape, ih]
      · rw [escape_cons_of_ne htilde hslash, unescape_cons_of_ne htilde, ih]

/-- An escaped step is one piece of a fragment. -/
theorem slash_not_mem_escape (step : List Char) : '/' ∉ escape step := by
  induction step with
  | nil => exact List.not_mem_nil
  | cons c rest ih =>
    by_cases htilde : c = '~'
    · subst htilde
      rw [escape]
      simpa using ih
    · by_cases hslash : c = '/'
      · subst hslash
        rw [escape]
        simpa using ih
      · rw [escape_cons_of_ne htilde hslash, List.mem_cons, not_or]
        exact ⟨fun h => hslash h.symm, ih⟩

theorem escape_ne_nil {step : List Char} (h : step ≠ []) : escape step ≠ [] := by
  intro hescape
  have hread := unescape_escape step
  rw [hescape] at hread
  exact h hread.symm

/-- A fragment is read as the steps that it was written for; only empty ones are lost. -/
theorem tokens_fragmentChars {steps : List String} (h : ∀ step ∈ steps, step ≠ "") :
    tokens (fragmentChars steps) = steps.map String.toList := by
  have hpieces : tokens (fragmentChars steps) =
      ((steps.map fun step => escape step.toList).flatMap pieces).map unescape := by
    rw [← pieces_steps, List.flatMap_map]
    rfl
  rw [hpieces, List.flatMap_map, List.map_flatMap, List.map_eq_flatMap]
  refine List.flatMap_congr fun step hstep => ?_
  have hne : step.toList ≠ [] := fun hnil => h step hstep (String.toList_inj.mp hnil)
  rw [pieces, Text.splitAt_of_not_mem (slash_not_mem_escape step.toList)]
  simp [escape_ne_nil hne, unescape_escape]

theorem resolve_fragment {document target : Json} {steps : List String}
    (h : Leads document steps target) (hsteps : ∀ step ∈ steps, step ≠ "")
    (hsize : ∀ front items, Leads document front (.arr items) →
      items.length ≤ 10 ^ Json.maxIntegerDigits) :
    resolve document (fragment steps) = .ok (some target) := by
  rw [resolve, fragment, String.toList_ofList, tokens_fragmentChars hsteps]
  exact walk_of_leads h hsize

end Pointer

/-! ## References to a fragment -/

namespace Schema

open Pointer (fragment)

theorem localFragment?_fragment (steps : List String) :
    localFragment? (.str (fragment steps)) = some (fragment steps) := by
  rw [localFragment?, fragment, String.toList_ofList]
  rfl

/-- What the keywords beside a reference make of the node that it leads to. -/
def besideReference (schema : Entries Json) (node : SchemaNode) : SchemaNode :=
  withNullable schema <|
    match schema.get? "description" with
    | some description => node.withDescription description
    | none => node

theorem planOf_of_reference {schema : Entries Json} {reference : Json}
    (hreference : schema.get? "$ref" = some reference)
    (hrefused : ∀ keyword ∈ refusedKeywords, schema.has keyword = false) :
    planOf (.obj schema) = .reference reference (besideReference schema) := by
  have hnone : refusedKeywords.find? schema.has = none :=
    List.find?_eq_none.mpr fun keyword hkeyword => by simp [hrefused keyword hkeyword]
  rw [planOf, hnone, planOfReference, hreference]
  rfl

/-- A reference converts to what its target converts to with one reference less, wherever either of
the two stands. -/
theorem convert_reference_iff {sources : Sources} {stop stop' : Json → Location → ConversionError}
    {schema reference target : Json} {finish : SchemaNode → SchemaNode}
    (hplan : planOf schema = .reference reference finish)
    (htarget : ∀ l, sources.target reference l = .ok target) {budget : Nat}
    {location location' : Location} {node : SchemaNode} :
    convert sources stop (budget + 1) schema location = .ok node ↔
      ∃ n, convert sources stop' budget target location' = .ok n ∧ finish n = node := by
  -- All references lead to the same schemas from everywhere.
  have hsame : ∀ {stop stop' location location' n},
      convert sources stop budget target location = .ok n →
        convert sources stop' budget target location' = .ok n := by
    intro stop stop' location location' n h
    refine convert_eq_ok_of_same (fun r t => ∃ l, sources.target r l = .ok t) (Nat.le_refl _) ?_ h
    exact fun _ _ _ _ l t ht => ⟨⟨l, ht⟩, fun _ => target_eq_ok_iff.mpr (target_eq_ok_iff.mp ht)⟩
  constructor
  · intro h
    rcases cases_of_convert_eq_ok h with
      ⟨r, finish', rest, target', n, hplan', hbudget, htarget', hn, hfinish⟩ |
      ⟨_, _, _, hplan', -⟩
    · cases hplan.symm.trans hplan'
      cases hbudget
      cases (htarget location).symm.trans htarget'
      exact ⟨n, hsame hn, hfinish⟩
    · cases hplan.symm.trans hplan'
  · rintro ⟨n, hn, rfl⟩
    exact convert_of_reference hplan (htarget location) (hsame hn)

end Schema

open Pointer (fragment)

/-- The fragment for the steps to a value of a document leads to that value; fragments are the same
only for the same steps, and lead to the same value only if the steps do; and a reference to the
fragment is converted to the node of the value, together with the keywords beside the reference.
Indices must be short enough to be read, as those of every list with fewer members are. -/
theorem fragment_leads {document target : Json} {steps : List String}
    (h : Leads document steps target) (hsteps : ∀ step ∈ steps, step ≠ "")
    (hsize : ∀ front items, Leads document front (.arr items) →
      items.length ≤ 10 ^ Json.maxIntegerDigits) :
    Pointer.resolve document (fragment steps) = .ok (some target) ∧
      (∀ others other, Leads document others other → (∀ step ∈ others, step ≠ "") →
        (fragment steps = fragment others → steps = others) ∧
          (target ≠ other →
            Pointer.resolve document (fragment steps) ≠
              Pointer.resolve document (fragment others))) ∧
      ∀ (schema : Entries Json), schema.get? "$ref" = some (.str (fragment steps)) →
        (∀ keyword ∈ Schema.refusedKeywords, schema.has keyword = false) →
        ∀ external? stop stop' budget location location' node,
          Schema.convert ⟨document, external?⟩ stop (budget + 1) (.obj schema) location = .ok node ↔
            ∃ n, Schema.convert ⟨document, external?⟩ stop' budget target location' = .ok n ∧
              Schema.besideReference schema n = node := by
  have hresolve := Pointer.resolve_fragment h hsteps hsize
  -- the steps are read back from the fragment, so that it is that of no other steps
  refine ⟨hresolve, fun others other hothers hnonempty => ⟨fun heq => ?_, fun hne heq => ?_⟩, ?_⟩
  · have htokens := congrArg (fun text => Pointer.tokens text.toList) heq
    simp only [fragment, String.toList_ofList] at htokens
    rw [Pointer.tokens_fragmentChars hsteps, Pointer.tokens_fragmentChars hnonempty] at htokens
    exact List.map_injective_iff.mpr (fun _ _ => String.toList_inj.mp) htokens
  · rw [hresolve, Pointer.resolve_fragment hothers hnonempty hsize] at heq
    cases heq
    exact hne rfl
  · intro schema hreference hrefused external? stop stop' budget location location' node
    have htarget : ∀ l, (Schema.Sources.mk document external?).target (.str (fragment steps)) l =
        .ok target := fun l =>
      Schema.target_eq_ok_iff.mpr
        (.inl ⟨fragment steps, Schema.localFragment?_fragment steps, hresolve⟩)
    exact Schema.convert_reference_iff (Schema.planOf_of_reference hreference hrefused) htarget

/-- The place `~1` of the second item of `a/b`, in a document where `a/b` is also the way down `a`
to `b` and the other keys look like escapes and indices.  The schema there lets in all values. -/
theorem fragment_leads_escaped :
    let inner : Json := .obj [("~1", .bool true), ("/", .bool false)]
    let document : Json :=
      .obj [("a", .obj [("b", .null)]), ("a/b", .arr [.null, inner]), ("1", .str "x")]
    fragment ["a/b", "1", "~1"] = "#/a~1b/1/~01" ∧
      Pointer.resolve document "#/a~1b/1/~01" = .ok (some (.bool true)) ∧
      Pointer.resolve document "#/a~1b/1/~01" ≠ Pointer.resolve document "#/a~1b/1/~1" ∧
      ∀ stop location,
        Schema.convert ⟨document, none⟩ stop 1 (.obj [("$ref", .str "#/a~1b/1/~01")]) location =
          .ok (.any {}) := by
  intro inner document
  have hitem : [Json.null, inner][1]? = some inner := rfl
  have hinner : Leads document ["a/b", "1"] inner := .key rfl (.item hitem (.here _))
  have hleads : Leads document ["a/b", "1", "~1"] (.bool true) := hinner.trans (.of_get? rfl)
  have hother : Leads document ["a/b", "1", "/"] (.bool false) := hinner.trans (.of_get? rfl)
  have hsize : ∀ front items, Leads document front (.arr items) →
      items.length ≤ 10 ^ Json.maxIntegerDigits := by
    intro front items h
    have hsmall : sizeOf document ≤ 10 ^ 3 := by decide +kernel
    have hlarge : 10 ^ 3 ≤ 10 ^ Json.maxIntegerDigits :=
      Nat.pow_le_pow_right (by decide) (by decide)
    exact Nat.le_trans (Nat.le_trans h.length_items_le hsmall) hlarge
  obtain ⟨hresolve, hapart, hconvert⟩ := fragment_leads hleads (by decide) hsize
  refine ⟨rfl, hresolve, (hapart _ _ hother (by decide)).2 (by simp), fun stop location => ?_⟩
  have hany : Schema.convert ⟨document, none⟩ stop 0 (.bool true) location = .ok (.any {}) := by
    rw [Schema.convert_eq_run]
    rfl
  exact (hconvert _ rfl (by decide) none stop stop 0 location location _).mpr ⟨_, hany, rfl⟩

end SchemaTypings
