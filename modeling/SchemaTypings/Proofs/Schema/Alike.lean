/-
  SchemaTypings.Proofs.Schema.Alike

  References that lead alike.  A conversion looks at its sources through the references that it
  comes to, and of what these lead to only the schemas that have a structural form matter.  So a
  schema has the same node in every document in which they lead to the same such schemas, and its
  parts may be converted wherever the schema itself is.
-/
import SchemaTypings.Proofs.Schema.Nesting

namespace SchemaTypings.Schema

/-- Whether a schema has a structural form, under any budget. -/
def Sources.HasForm (sources : Sources) (schema : Json) : Prop :=
  ∃ stop budget, Succeeds sources stop budget schema

/-- Whether the references that a schema comes to lead to the same schemas from other sources, as
far as these have a structural form. -/
def KeepsTargets (sources sources' : Sources) (schema : Json) : Prop :=
  ∀ reached reference target, Reached sources.LeadsTo schema reached →
    (planOf reached).reference? = some reference → sources.LeadsTo reference target →
      sources.HasForm target → sources'.LeadsTo reference target

theorem KeepsTargets.refl (sources : Sources) (schema : Json) :
    KeepsTargets sources sources schema :=
  fun _ _ _ _ _ hlead _ => hlead

/-- What is passed on to parts and to what references lead to holds of all that is reached. -/
theorem Reached.of_closed {leads : Json → Json → Prop} {start reached : Json} (p : Json → Prop)
    (hstart : p start) (hpart : ∀ s part, p s → part ∈ (planOf s).schemas → p part)
    (htarget : ∀ s reference target, p s → (planOf s).reference? = some reference →
      leads reference target → p target) (h : Reached leads start reached) : p reached := by
  induction h with
  | start => exact hstart
  | part _ hmem ih => exact hpart _ _ ih hmem
  | target _ hreference hleads ih => exact htarget _ _ _ ih hreference hleads

/-- Targets are kept where all schemas of a kind that is not left have theirs kept. -/
theorem KeepsTargets.of_closed {sources sources' : Sources} {schema : Json} (p : Json → Prop)
    (hstart : p schema) (hpart : ∀ s part, p s → part ∈ (planOf s).schemas → p part)
    (htarget : ∀ s reference target, p s → (planOf s).reference? = some reference →
      sources.LeadsTo reference target → p target ∧ sources'.LeadsTo reference target) :
    KeepsTargets sources sources' schema := by
  intro reached reference target hreached hreference hlead _
  have hp : p reached := hreached.of_closed p hstart hpart
    fun s r t hs hr ht => (htarget s r t hs hr ht).1
  exact (htarget reached reference target hp hreference hlead).2

theorem Sources.LeadsTo.eq {sources : Sources} {reference target other : Json}
    (h : sources.LeadsTo reference target) (h' : sources.LeadsTo reference other) :
    other = target := by
  obtain ⟨location, hother⟩ := h'
  exact Except.ok.inj (hother.symm.trans (h.target_eq location))

section
variable {sources sources' : Sources} {stop stop' : Json → Location → ConversionError}
  {budget : Nat} {schema : Json} {location : Location} {node : SchemaNode}

/-- What a conversion has come to has a structural form. -/
theorem Reached.hasForm {reached : Json} (hreached : Reached sources.LeadsTo schema reached)
    (h : sources.HasForm schema) : sources.HasForm reached := by
  obtain ⟨stop, budget, hsucceeds⟩ := h
  have hleads : ∀ reference target l, sources.LeadsTo reference target →
      ∀ other, sources.target reference l = .ok other → other = target :=
    fun _ _ l hlead _ hother => hlead.eq ⟨l, hother⟩
  obtain ⟨rest, -, hrest⟩ := hreached.succeeds hleads hsucceeds
  exact ⟨stop, rest, hrest⟩

/-- A schema with a structural form is not come back to. -/
theorem Reached.not_leadsTo_start {reached reference : Json}
    (hreached : Reached sources.LeadsTo schema reached)
    (hreference : (planOf reached).reference? = some reference) (h : sources.HasForm schema) :
    ¬sources.LeadsTo reference schema := by
  obtain ⟨stop, budget, hsucceeds⟩ := h
  exact hreached.not_leads_start hreference
    (fun _ _ l hlead _ hother => hlead.eq ⟨l, hother⟩) hsucceeds

/-- A schema has the same node, wherever it is, from all sources that keep its targets. -/
theorem convert_of_keepsTargets (hkeeps : KeepsTargets sources sources' schema)
    (h : convert sources stop budget schema location = .ok node)
    (stop' : Json → Location → ConversionError) (location' : Location) :
    convert sources' stop' budget schema location' = .ok node := by
  have hform : sources.HasForm schema := ⟨stop, budget, location, node, h⟩
  refine convert_eq_ok_of_same sources.LeadsTo (Nat.le_refl _) ?_ h
  intro reached reference hreached hreference l target htarget
  have hlead : sources.LeadsTo reference target := ⟨l, htarget⟩
  have hthere : sources.HasForm target := (hreached.target hreference hlead).hasForm hform
  exact ⟨hlead, (hkeeps reached reference target hreached hreference hlead hthere).target_eq⟩

theorem convert_at (h : convert sources stop budget schema location = .ok node)
    (location' : Location) : convert sources stop budget schema location' = .ok node :=
  convert_of_keepsTargets (.refl sources schema) h stop location'

/-- Schemas with one plan are converted alike. -/
theorem convert_congr {other : Json} (h : planOf schema = planOf other) :
    convert sources stop budget schema location = convert sources stop budget other location := by
  rw [convert_eq_run, convert_eq_run, h]

/-- A schema that is taken apart has a node if its parts have nodes to build it from, wherever they
are. -/
theorem convert_eq_ok_iff_of_parts {ps : List (Json × List String)}
    {build : Location → List SchemaNode → Result} (hplan : planOf schema = .parts ps build) :
    convert sources stop budget schema location = .ok node ↔
      ∃ nodes, List.Forall₂ (fun part n => convert sources stop budget part location = .ok n)
          (ps.map Prod.fst) nodes ∧ build location nodes = .ok node := by
  constructor
  · intro h
    rcases cases_of_convert_eq_ok h with
      ⟨_, _, _, _, _, hother, -⟩ | ⟨ps', build', nodes, hother, hnodes, hbuilt⟩
    · cases hplan.symm.trans hother
    · cases hplan.symm.trans hother
      refine ⟨nodes, ?_, hbuilt⟩
      rw [List.forall₂_map_left_iff]
      exact hnodes.imp fun _ _ hn => convert_at hn location
  · rintro ⟨nodes, hnodes, hbuilt⟩
    rw [List.forall₂_map_left_iff] at hnodes
    rw [convert_of_parts hplan (hnodes.imp fun _ _ hn => convert_at hn _)]
    exact hbuilt

/-! ## Alike from both sides -/

/-- Whether the references that a schema comes to lead to the same schemas with a structural form
from either sources. -/
def SameTargets (sources sources' : Sources) (schema : Json) : Prop :=
  KeepsTargets sources sources' schema ∧ KeepsTargets sources' sources schema

theorem SameTargets.convert_eq_ok_iff (h : SameTargets sources sources' schema)
    (stop stop' : Json → Location → ConversionError) (location location' : Location) :
    convert sources stop budget schema location = .ok node ↔
      convert sources' stop' budget schema location' = .ok node :=
  ⟨fun hnode => convert_of_keepsTargets h.1 hnode stop' location',
    fun hnode => convert_of_keepsTargets h.2 hnode stop location⟩

end

end SchemaTypings.Schema
