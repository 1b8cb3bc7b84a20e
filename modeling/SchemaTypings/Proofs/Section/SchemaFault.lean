/-
  SchemaTypings.Proofs.Section.SchemaFault

  Every outcome of writing the declarations for a schema: a source, the failure for a construct
  without a structural form, or a fault.  Schemas are not checked before they are converted, so that
  a value of the wrong type is met where it is used; each fault is one of a schema that the
  conversion comes to, or there is an integer of too many digits to be written or shown.

  How deeply calls can be nested is no matter of the program and is left out here.
-/
import SchemaTypings.Proofs.Schema.Shown
import SchemaTypings.Proofs.Typescript.Writable
import SchemaTypings.Section.Build

namespace SchemaTypings

namespace Schema

/-- Whether a reference leads from a document to a schema in it. -/
def LeadsWithin (document reference target : Json) : Prop :=
  ∃ fragment, localFragment? reference = some fragment ∧
    Pointer.resolve document fragment = .ok (some target)

/-- What about a schema in a document is used and cannot be, and the fault that this is. -/
inductive Unfit (document schema : Json) : Fault → Prop where
  | keyword {fault : Fault} (h : Misused schema fault) : Unfit document schema fault
  /-- The description is there and is no text. -/
  | description (hsome : (descriptionOf schema).isTruthy = true)
      (hnot : ∀ s, descriptionOf schema ≠ .str s) : Unfit document schema .noSuchOperation
  /-- The index of a list member in a pointer is made of digits that are no number. -/
  | pointer {reference : Json} {fragment : String} {fault : Fault}
      (hreference : (planOf schema).reference? = some reference)
      (hfragment : localFragment? reference = some fragment)
      (h : Pointer.resolve document fragment = .error fault) : Unfit document schema fault

theorem leadsWithin_of_target {document reference target : Json} {location : Location}
    (h : (Sources.mk document none).target reference location = .ok target) :
    LeadsWithin document reference target := by
  unfold Sources.target at h
  split at h
  · next fragment hfragment =>
    split at h
    · next hresolve =>
      cases h
      exact ⟨fragment, hfragment, hresolve⟩
    · cases h
    · cases h
  · cases h

/-- A document that ends in a fault is unfit at a schema that the conversion comes to. -/
theorem exists_unfit_of_fault {document : Json} {maxRefDepth : Int} {fault : Fault}
    (h : ofDocument document none (.ofInt maxRefDepth) = .error (.fault fault)) :
    ∃ reached, Reached (LeadsWithin document) document reached ∧ Unfit document reached fault := by
  obtain ⟨reached, hreached, hcause⟩ := exists_reached_of_fault (LeadsWithin document)
    (fun _ _ _ => leadsWithin_of_target) h
  refine ⟨reached, hreached, ?_⟩
  rcases hcause with hmisused | ⟨reference, l, hreference, htarget | hstop⟩
  · exact .keyword hmisused
  · unfold Sources.target at htarget
    split at htarget
    · next fragment hfragment =>
      split at htarget
      · cases htarget
      · cases htarget
      · next hresolve =>
        cases htarget
        exact .pointer hreference hfragment hresolve
    · cases htarget
  · cases hstop

/-! ## Long integers -/

theorem isWritable_of_inside_target {document reference target : Json} {location : Location}
    (hdocument : document.isWritable = true)
    (h : (Sources.mk document none).target reference location = .ok target) :
    ∀ v, Inside target v → v.isWritable = true :=
  fun _ hv => hv.isWritable (isWritable_of_target hdocument (by simp) h)

/-- The values that are written for the node of a document without integers of too many digits have
none either. -/
theorem writes_of_isWritable {document : Json} {limit : ReferenceLimit} {node : SchemaNode}
    (hdocument : document.isWritable = true) (h : ofDocument document none limit = .ok node) :
    node.Writes fun v => v.isWritable = true :=
  writes_of_convert rfl (fun _ _ _ => isWritable_of_inside_target hdocument)
    (fun _ hv => hv.isWritable hdocument) h

/-- The message about a failure in such a document can be told, if the limit has not too many digits
either. -/
theorem shows_of_isWritable {document : Json} {maxRefDepth : Int} {e : ConversionError}
    (hdocument : document.isWritable = true) (hlimit : (Json.int maxRefDepth).isWritable = true)
    (h : ofDocument document none (.ofInt maxRefDepth) = .error e) :
    Shows (fun v => v.isWritable = true) e := by
  refine shows_of_convert (fun reference l hr => ?_) (fun reference l e hr htarget => ?_)
    (fun _ _ _ => isWritable_of_inside_target hdocument) (fun _ hv => hv.isWritable hdocument) h
  · have hshown : ∀ v ∈ (Unsupported.referenceTooDeep reference (.int maxRefDepth)).shownValues,
        v.isWritable = true :=
      List.forall_mem_cons.mpr ⟨hr, List.forall_mem_singleton.mpr hlimit⟩
    exact shows_unsupported hshown l
  unfold Sources.target at htarget
  split at htarget
  · split at htarget
    · cases htarget
    · cases htarget
      exact shows_unsupported (List.forall_mem_nil _) _
    · cases htarget
      exact shows_fault _
  · cases htarget
    have hshown : ∀ v ∈ (Unsupported.externalReference reference).shownValues,
        v.isWritable = true := List.forall_mem_singleton.mpr hr
    exact shows_unsupported hshown _

/-- A node that cannot be written comes from a document with a description that is no text, or with
an integer of too many digits. -/
theorem exists_unfit_of_typeSource {document : Json} {maxRefDepth : Int} {node : SchemaNode}
    (h : ofDocument document none (.ofInt maxRefDepth) = .ok node) {name : String}
    {doc : List String} {fault : Fault}
    (hsource : Typescript.typeSource .default node name doc = .error fault) :
    (∃ reached, Reached (LeadsWithin document) document reached ∧ Unfit document reached fault) ∨
      fault = .numeralTooLong ∧ document.isWritable = false := by
  have hindent : Config.default.indent = .ok [' ', ' '] := by decide
  rcases Typescript.exists_of_typeSource_error hsource with
    hfails | ⟨n, hn, hfails | ⟨rfl, v, hv, hlong⟩⟩
  · rw [hindent] at hfails
    cases hfails
  · -- A node without a description of its own has null there, which is passed over.
    obtain ⟨rfl, hsome, hnot⟩ := Typescript.eq_of_noteLines_error hfails
    have hdescribed : node.Described fun d => d = .null ∨
        ∃ reached, Reached (LeadsWithin document) document reached ∧ descriptionOf reached = d :=
      described_of_convert (LeadsWithin document) (.inl rfl) (fun _ _ _ => leadsWithin_of_target)
        (fun reached hreached => .inr ⟨reached, hreached, rfl⟩) h
    rcases hdescribed n hn with hnull | ⟨reached, hreached, hdescription⟩
    · rw [SchemaNode.description] at hnull
      rw [hnull] at hsome
      cases hsome
    · rw [SchemaNode.description] at hdescription
      exact .inl ⟨reached, hreached, .description (hdescription ▸ hsome) (hdescription ▸ hnot)⟩
  · refine .inr ⟨rfl, Bool.eq_false_iff.mpr fun hdocument => ?_⟩
    rw [writes_of_isWritable hdocument h n hn v hv] at hlong
    cases hlong

end Schema

namespace Toolkit

open Schema

/-- The default toolkit with another limit for nested references. -/
def nesting (maxRefDepth : Int) : Toolkit :=
  { layout := { Config.default with maxRefDepth := .int maxRefDepth } }

/-- The outcomes of writing the declarations for a schema under the default settings. -/
theorem schemaSource_nesting_cases (maxRefDepth : Int) (schema : Json) (name : String)
    (doc : List String) :
    (∃ source, (nesting maxRefDepth).schemaSource schema name doc = .ok source) ∨
      (∃ cause location, (nesting maxRefDepth).schemaSource schema name doc =
        .error (.generation (.unsupportedSchema cause location))) ∨
      (∃ fault, (nesting maxRefDepth).schemaSource schema name doc = .error (.fault fault) ∧
        ∃ reached, Reached (LeadsWithin schema) schema reached ∧ Unfit schema reached fault) ∨
      (nesting maxRefDepth).schemaSource schema name doc = .error (.fault .numeralTooLong) ∧
        (schema.isWritable = false ∨ (Json.int maxRefDepth).isWritable = false) := by
  have hnode : (nesting maxRefDepth).node schema =
      (ofDocument schema none (.ofInt maxRefDepth)).mapError ConversionError.toFailure := rfl
  rw [schemaSource, hnode]
  cases hconvert : ofDocument schema none (.ofInt maxRefDepth) with
  | error e =>
    cases e with
    | unsupported cause location =>
      dsimp only [Except.mapError, ConversionError.toFailure]
      split
      · exact .inr (.inl ⟨cause, location, rfl⟩)
      · next hlong =>
        -- The message is not told: it shows a value with an integer of too many digits.
        refine .inr (.inr (.inr ⟨rfl, ?_⟩))
        cases hwritable : schema.isWritable with
        | false => exact .inl rfl
        | true =>
          refine .inr (Bool.eq_false_iff.mpr fun hlimit => hlong ?_)
          exact List.all_eq_true.mpr
            (shows_of_isWritable hwritable hlimit hconvert cause location rfl)
    | fault fault => exact .inr (.inr (.inl ⟨fault, rfl, exists_unfit_of_fault hconvert⟩))
  | ok node =>
    dsimp only [Except.mapError]
    cases hsource : Typescript.typeSource (nesting maxRefDepth).generator node name doc with
    | error fault =>
      rcases exists_unfit_of_typeSource hconvert hsource with hunfit | ⟨rfl, hlong⟩
      · exact .inr (.inr (.inl ⟨fault, rfl, hunfit⟩))
      · exact .inr (.inr (.inr ⟨rfl, .inl hlong⟩))
    | ok source => exact .inl ⟨source, rfl⟩

/-- A type that cannot be looked up among the type names ends in a fault. -/
theorem schemaSource_nesting_object_type :
    (nesting 16).schemaSource (.obj [("type", .obj [])]) "Foo" = .error (.fault .unfitOperand) := by
  cbv

end Toolkit
end SchemaTypings
