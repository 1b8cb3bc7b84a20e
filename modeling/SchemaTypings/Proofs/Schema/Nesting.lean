/-
  SchemaTypings.Proofs.Schema.Nesting

  How many references are nested in each other.  What a conversion gives does not depend on how many
  it may follow: it succeeds under every budget that covers the deepest nesting, with one node, and
  under a smaller one it ends at a reference that is as deep as the budget.
-/
import SchemaTypings.Proofs.Schema.NullKeyword
import Mathlib.Data.Nat.SuccPred
import Mathlib.Order.SuccPred.Archimedean

namespace SchemaTypings.Schema

/-- Whether a reference leads to a schema, wherever it stands. -/
def Sources.LeadsTo (sources : Sources) (reference target : Json) : Prop :=
  ∃ location, sources.target reference location = .ok target

theorem Sources.LeadsTo.target_eq {sources : Sources} {reference target : Json}
    (h : sources.LeadsTo reference target) (location : Location) :
    sources.target reference location = .ok target := by
  obtain ⟨_, htarget⟩ := h
  exact target_eq_ok_iff.mpr (target_eq_ok_iff.mp htarget)

/-- The schemas at a schema and below it, with the number of references on the way. -/
inductive Nested (leads : Json → Json → Prop) : Json → Nat → Json → Prop where
  | here (schema : Json) : Nested leads schema 0 schema
  | part {schema part reached : Json} {n : Nat} (hpart : part ∈ (planOf schema).schemas)
      (h : Nested leads part n reached) : Nested leads schema n reached
  | target {schema reference target reached : Json} {n : Nat}
      (hreference : (planOf schema).reference? = some reference) (hleads : leads reference target)
      (h : Nested leads target n reached) : Nested leads schema (n + 1) reached

section
variable {sources : Sources} {stop : Json → Location → ConversionError} {budget : Nat}
  {schema : Json} {location : Location} {node : SchemaNode}

/-- A conversion that succeeds has spent one of its budget on each reference on the way. -/
theorem Nested.succeeds {n : Nat} {reached : Json} (hn : Nested sources.LeadsTo schema n reached)
    (h : Succeeds sources stop budget schema) :
    ∃ rest, budget = n + rest ∧ Succeeds sources stop rest reached := by
  induction hn generalizing budget with
  | here schema => exact ⟨budget, (Nat.zero_add _).symm, h⟩
  | part hpart _ ih => exact ih (h.part hpart)
  | target hreference hleads _ ih =>
    obtain ⟨less, other, l, rfl, hother, hsucceeds⟩ := h.target hreference
    cases Except.ok.inj (hother.symm.trans (hleads.target_eq l))
    obtain ⟨rest, rfl, hrest⟩ := ih hsucceeds
    exact ⟨rest, by omega, hrest⟩

end

/-! ## Less than is needed -/

section
variable {sources : Sources} {budget : Nat} {schema : Json} {location : Location}

end

/-! ## Documents -/

end SchemaTypings.Schema
