/-
  SchemaTypings.Proofs.Schema.External

  References to other documents.  A conversion keeps to the document that it started from: what an
  external reference leads to is converted as if on its own, with one reference less, unless there
  is a local reference in it.  That one is looked up in the referring document, and never comes to a
  schema with a structural form where the reference is all that this document holds.
-/
import SchemaTypings.Proofs.Schema.Reached

namespace SchemaTypings.Schema

/-- Whether a reference out of its document leads to a schema. -/
def LeadsOut (resolver : Json → Except Fault Json) (reference target : Json) : Prop :=
  localFragment? reference = none ∧ resolver reference = .ok target

/-- Whether a schema is a reference to somewhere in the document that it is in. -/
def IsLocalReference (schema : Json) : Prop :=
  ∃ reference fragment, (planOf schema).reference? = some reference ∧
    localFragment? reference = some fragment

/-- The document that holds a reference alone. -/
def referring (uri : String) : Json := .obj [("$ref", .str uri)]

theorem target_of_leadsOut {resolver : Json → Except Fault Json} {reference target : Json}
    (h : LeadsOut resolver reference target) (root : Json) (location : Location) :
    (Sources.mk root (some resolver)).target reference location = .ok target := by
  simp only [Sources.target, h.1, h.2]

theorem leadsOut_of_target {resolver : Json → Except Fault Json} {root reference target : Json}
    {location : Location} (hout : localFragment? reference = none)
    (h : (Sources.mk root (some resolver)).target reference location = .ok target) :
    LeadsOut resolver reference target := by
  refine ⟨hout, ?_⟩
  simp only [Sources.target, hout] at h
  split at h
  · next hresolve =>
    cases h
    exact hresolve
  · cases h

/-- Without local references the document that a conversion started from makes no difference. -/
theorem convert_of_root {resolver : Json → Except Fault Json}
    {stop stop' : Json → Location → ConversionError} {root root' schema : Json} {budget : Nat}
    {location location' : Location} {node : SchemaNode}
    (hno : ∀ reached, Reached (LeadsOut resolver) schema reached → ¬IsLocalReference reached)
    (h : convert ⟨root, some resolver⟩ stop budget schema location = .ok node) :
    convert ⟨root', some resolver⟩ stop' budget schema location' = .ok node := by
  refine convert_eq_ok_of_same (LeadsOut resolver) (Nat.le_refl _) ?_ h
  intro reached reference hreached href l target ht
  have hout : localFragment? reference = none := by
    cases hlocal : localFragment? reference with
    | none => rfl
    | some fragment => exact absurd ⟨reference, fragment, href, hlocal⟩ (hno reached hreached)
  have hleads := leadsOut_of_target hout ht
  exact ⟨hleads, target_of_leadsOut hleads root'⟩

/-! ## The referring document -/

section
variable {resolver : Json → Except Fault Json} {stop : Json → Location → ConversionError}
  {uri : String} {document : Json}

theorem convert_referring (hdocument : LeadsOut resolver (.str uri) document) (budget : Nat)
    (root : Json) (location : Location) :
    convert ⟨root, some resolver⟩ stop (budget + 1) (referring uri) location =
      convert ⟨root, some resolver⟩ stop budget document location := by
  rw [convert_eq_run]
  have hplan : planOf (referring uri) = .reference (.str uri) fun node => node := rfl
  rw [hplan, Plan.run, follower, target_of_leadsOut hdocument]
  dsimp only
  cases convert ⟨root, some resolver⟩ stop budget document location <;> rfl

/-- A pointer into the referring document leads to the document or to the text of its reference. -/
theorem eq_of_resolve_referring {fragment : String} {target : Json}
    (h : Pointer.resolve (referring uri) fragment = .ok (some target)) :
    target = referring uri ∨ target = .str uri := by
  rw [Pointer.resolve] at h
  cases htokens : Pointer.tokens fragment.toList with
  | nil =>
    rw [htokens] at h
    cases h
    exact .inl rfl
  | cons token rest =>
    rw [htokens, Pointer.walk, referring, Pointer.step, Entries.get?_cons] at h
    by_cases hkey : "$ref" = String.ofList token
    · rw [if_pos hkey] at h
      cases rest with
      | nil =>
        cases h
        exact .inr rfl
      | cons more rest => cases h
    · rw [if_neg hkey] at h
      cases h

/-- What has a structural form below the referring document has no local reference. -/
theorem not_isLocalReference_of_succeeds (hdocument : LeadsOut resolver (.str uri) document)
    {budget : Nat} (h : Succeeds ⟨referring uri, some resolver⟩ stop budget document)
    {reached : Json} (hreached : Reached (LeadsOut resolver) document reached) :
    ¬IsLocalReference reached := by
  -- A local reference comes back to the document itself, with a smaller budget.
  induction budget using Nat.strongRecOn with
  | ind budget ih =>
    rintro ⟨reference, fragment, href, hlocal⟩
    obtain ⟨rest, hle, hsucceeds⟩ := hreached.succeeds (fun _ _ l hleads _ hother =>
      Except.ok.inj (hother.symm.trans (target_of_leadsOut hleads _ l))) h
    obtain ⟨less, target, location, rfl, htarget, hagain⟩ := hsucceeds.target href
    have hresolve : Pointer.resolve (referring uri) fragment = .ok (some target) := by
      simp only [Sources.target, hlocal] at htarget
      split at htarget
      · next hresolve =>
        cases htarget
        exact hresolve
      · cases htarget
      · cases htarget
    rcases eq_of_resolve_referring hresolve with rfl | rfl
    · -- Back at the referring document, its reference leads to the same document once more.
      obtain ⟨fewer, other, l, rfl, hother, hdocument'⟩ := hagain.target rfl
      cases Except.ok.inj (hother.symm.trans (target_of_leadsOut hdocument _ l))
      exact ih fewer (by omega) hdocument' ⟨reference, fragment, href, hlocal⟩
    · -- A text is no schema.
      obtain ⟨l, node, hnode⟩ := hagain
      rw [convert_eq_run] at hnode
      cases hnode

end

/-- A reference to another document is converted to the node of that document on its own, if there
is no local reference in that document or in those that it refers to, and fails otherwise. -/
theorem ofDocument_referring_iff {resolver : Json → Except Fault Json} {uri : String}
    {document : Json} (hout : localFragment? (.str uri) = none)
    (hdocument : resolver (.str uri) = .ok document) (depth : Nat) (node : SchemaNode) :
    ofDocument (referring uri) (some resolver) (.ofInt (depth + 1)) = .ok node ↔
      ofDocument document (some resolver) (.ofInt depth) = .ok node ∧
        ∀ reached, Reached (LeadsOut resolver) document reached → ¬IsLocalReference reached := by
  have hbudget : (ReferenceLimit.ofInt (depth + 1)).budget =
      (ReferenceLimit.ofInt depth).budget + 1 := by
    simp only [ReferenceLimit.ofInt, ReferenceLimit.budget]
    omega
  have hleads : LeadsOut resolver (.str uri) document := ⟨hout, hdocument⟩
  rw [ofDocument, ofDocument, hbudget, convert_referring hleads]
  constructor
  · intro h
    have hno : ∀ reached, Reached (LeadsOut resolver) document reached →
        ¬IsLocalReference reached := fun _ hreached =>
      not_isLocalReference_of_succeeds hleads ⟨_, node, h⟩ hreached
    exact ⟨convert_of_root hno h, hno⟩
  · rintro ⟨h, hno⟩
    exact convert_of_root hno h

/-- A document with a pointer to one of its own schemas. -/
def pointingDocument : Json :=
  .obj [("type", .str "object"), ("properties", .obj [("a", .obj [("$ref", .str "#/defs/x")])]),
    ("defs", .obj [("x", .obj [("type", .str "string")])])]

/-- The source of one document. -/
def pointingResolver : Json → Except Fault Json
  | .str "u" => .ok pointingDocument
  | _ => .error .unresolvedReference

theorem ofDocument_referring_pointingDocument :
    localFragment? (.str "u") = none ∧ pointingResolver (.str "u") = .ok pointingDocument ∧
      ofDocument pointingDocument (some pointingResolver) (.ofInt 1) =
        .ok (.object [⟨"a", true, .primitive .string {}⟩] false {}) ∧
      ∀ node, ofDocument (referring "u") (some pointingResolver) (.ofInt 2) ≠ .ok node := by
  have hout : localFragment? (.str "u") = none := by decide
  have hdocument : pointingResolver (.str "u") = .ok pointingDocument := rfl
  refine ⟨hout, hdocument, by cbv, fun node h => ?_⟩
  have hschemas : (planOf pointingDocument).schemas = [.obj [("$ref", .str "#/defs/x")]] := by cbv
  have hreached : Reached (LeadsOut pointingResolver) pointingDocument
      (.obj [("$ref", .str "#/defs/x")]) :=
    .part .start (hschemas ▸ List.mem_singleton_self _)
  exact ((ofDocument_referring_iff hout hdocument 1 node).mp h).2 _ hreached
    ⟨.str "#/defs/x", "#/defs/x", rfl, by decide⟩

end SchemaTypings.Schema
