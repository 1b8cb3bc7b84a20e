/-
  SchemaTypings.Proofs.Schema.Reached

  The schemas that a conversion comes to: parts of schemas, and what their references lead to.  A
  conversion succeeds only if it does at each of them, it is the same wherever the references lead
  to the same schemas, and each of its faults is one of a schema that it comes to.
-/
import SchemaTypings.Proofs.Schema.Outcome

namespace SchemaTypings.Schema

open SchemaNode

/-- The schemas that a plan takes apart. -/
def Plan.schemas : Plan → List Json
  | parts ps _ => ps.map Prod.fst
  | _ => []

/-- The reference that a plan follows. -/
def Plan.reference? : Plan → Option Json
  | reference r _ => some r
  | _ => none

theorem mem_schemas_of_planOf {schema : Json} {ps : List (Json × List String)}
    {build : Location → List SchemaNode → Result} (hplan : planOf schema = .parts ps build)
    {part : Json × List String} (hpart : part ∈ ps) : part.1 ∈ (planOf schema).schemas := by
  rw [hplan]
  exact List.mem_map_of_mem hpart

theorem reference?_of_planOf {schema reference : Json} {finish : SchemaNode → SchemaNode}
    (hplan : planOf schema = .reference reference finish) :
    (planOf schema).reference? = some reference := by
  rw [hplan]
  rfl

/-- The schemas at a schema and below it, across the references that lead to a schema. -/
inductive Reached (leads : Json → Json → Prop) (start : Json) : Json → Prop where
  | start : Reached leads start start
  | part {schema part : Json} (h : Reached leads start schema)
      (hpart : part ∈ (planOf schema).schemas) : Reached leads start part
  | target {schema reference target : Json} (h : Reached leads start schema)
      (hreference : (planOf schema).reference? = some reference) (hleads : leads reference target) :
      Reached leads start target

theorem Reached.trans {leads : Json → Json → Prop} {a b c : Json} (hab : Reached leads a b)
    (hbc : Reached leads b c) : Reached leads a c := by
  induction hbc with
  | start => exact hab
  | part _ hpart ih => exact ih.part hpart
  | target _ hreference hleads ih => exact ih.target hreference hleads

theorem sizeOf_lt_of_mem_schemas {schema part : Json} (h : part ∈ (planOf schema).schemas) :
    sizeOf part < sizeOf schema := by
  have hsuits := suits_planOf_any schema
  cases hplan : planOf schema with
  | failure error => rw [hplan] at h; cases h
  | reference r finish => rw [hplan] at h; cases h
  | parts ps build =>
    rw [hplan] at h hsuits
    obtain ⟨pair, hpair, rfl⟩ := List.mem_map.mp h
    cases hsuits with
    | parts hsize _ => exact hsize pair hpair

/-- What holds of a schema if it does of the parts, and of everything with fewer references to
follow, holds of every schema. -/
theorem visit_induction {motive : Nat → Json → Prop}
    (step : ∀ budget schema, (∀ part ∈ (planOf schema).schemas, motive budget part) →
      (∀ rest target, budget = rest + 1 → motive rest target) → motive budget schema)
    (budget : Nat) (schema : Json) : motive budget schema := by
  -- A reference takes one of the budget; a part keeps it and is smaller.
  induction budget using Nat.strongRecOn generalizing schema with
  | ind budget ihbudget =>
    induction hsize : sizeOf schema using Nat.strongRecOn generalizing schema with
    | ind size ihsize =>
      refine step budget schema (fun part hpart => ?_) fun rest target hbudget => ?_
      · exact ihsize (sizeOf part) (hsize ▸ sizeOf_lt_of_mem_schemas hpart) part rfl
      · exact ihbudget rest (by omega) target

/-! ## One schema

What a conversion does at one schema, in terms of the conversions that it rests on.  All that is
said of whole conversions goes by these cases. -/

/-- How a conversion goes on at a reference. -/
def follower (sources : Sources) (stop : Json → Location → ConversionError) :
    Nat → Json → Location → Result
  | 0, reference, location => .error (stop reference location)
  | budget + 1, reference, location =>
    match sources.target reference location with
    | .error e => .error e
    | .ok target => convert sources stop budget target location

section
variable {sources : Sources} {stop : Json → Location → ConversionError} {budget : Nat}
  {schema : Json} {location : Location} {node : SchemaNode}

theorem convert_eq_convertWith : convert sources stop budget =
    convertWith (follower sources stop budget) := by
  cases budget with
  | zero => rfl
  | succ budget => rfl

theorem convert_eq_run : convert sources stop budget schema location =
    (planOf schema).run (follower sources stop budget) location := by
  rw [convert_eq_convertWith, convertWith_eq]

theorem exists_of_follower_eq_ok {reference : Json}
    (h : follower sources stop budget reference location = .ok node) :
    ∃ rest target, budget = rest + 1 ∧ sources.target reference location = .ok target ∧
      convert sources stop rest target location = .ok node := by
  cases budget with
  | zero => cases h
  | succ rest =>
    rw [follower] at h
    cases htarget : sources.target reference location with
    | error e => rw [htarget] at h; cases h
    | ok target =>
      rw [htarget] at h
      exact ⟨rest, target, rfl, rfl, h⟩

theorem cases_of_follower_eq_error {reference : Json} {e : ConversionError}
    (h : follower sources stop budget reference location = .error e) :
    stop reference location = e ∨ sources.target reference location = .error e ∨
      ∃ rest target, budget = rest + 1 ∧ sources.target reference location = .ok target ∧
        convert sources stop rest target location = .error e := by
  cases budget with
  | zero => exact .inl (Except.error.inj h)
  | succ rest =>
    rw [follower] at h
    cases htarget : sources.target reference location with
    | error e' =>
      rw [htarget] at h
      cases Except.error.inj h
      exact .inr (.inl rfl)
    | ok target =>
      rw [htarget] at h
      exact .inr (.inr ⟨rest, target, rfl, rfl, h⟩)

theorem convertParts_eq_ok_iff {follow : Json → Location → Result}
    {ps : List (Json × List String)} {nodes : List SchemaNode} :
    convertParts follow location ps = .ok nodes ↔
      List.Forall₂ (fun part node =>
        convertWith follow part.1 (location.below part.2) = .ok node) ps nodes := by
  constructor
  · intro h
    induction ps generalizing nodes with
    | nil =>
      cases h
      exact .nil
    | cons part rest ih =>
      obtain ⟨schema, steps⟩ := part
      rw [convertParts] at h
      cases hnode : convertWith follow schema (location.below steps) with
      | error e => rw [hnode] at h; cases h
      | ok node =>
        rw [hnode] at h
        obtain ⟨more, hmore, rfl⟩ := exists_of_map_eq_ok h
        exact .cons hnode (ih hmore)
  · intro h
    induction h with
    | nil => rfl
    | cons hnode _ ih =>
      rw [convertParts, hnode, ih]
      rfl

theorem exists_of_convertParts_eq_error {follow : Json → Location → Result}
    {ps : List (Json × List String)} {e : ConversionError}
    (h : convertParts follow location ps = .error e) :
    ∃ part ∈ ps, convertWith follow part.1 (location.below part.2) = .error e := by
  induction ps with
  | nil => cases h
  | cons part rest ih =>
    obtain ⟨schema, steps⟩ := part
    rw [convertParts] at h
    cases hnode : convertWith follow schema (location.below steps) with
    | error e' =>
      rw [hnode] at h
      cases h
      exact ⟨_, List.mem_cons_self, hnode⟩
    | ok node =>
      rw [hnode] at h
      obtain ⟨part, hpart, hfails⟩ := ih (eq_error_of_map_eq_error h)
      exact ⟨part, List.mem_cons_of_mem _ hpart, hfails⟩

/-- A conversion that succeeds has followed the reference, or has converted all parts. -/
theorem cases_of_convert_eq_ok (h : convert sources stop budget schema location = .ok node) :
    (∃ reference finish rest target n, planOf schema = .reference reference finish ∧
        budget = rest + 1 ∧ sources.target reference location = .ok target ∧
        convert sources stop rest target location = .ok n ∧ finish n = node) ∨
      ∃ ps build nodes, planOf schema = .parts ps build ∧
        List.Forall₂ (fun part n =>
          convert sources stop budget part.1 (location.below part.2) = .ok n) ps nodes ∧
        build location nodes = .ok node := by
  rw [convert_eq_run] at h
  cases hplan : planOf schema with
  | failure error => rw [hplan] at h; cases h
  | reference reference finish =>
    rw [hplan] at h
    obtain ⟨n, hn, hfinish⟩ := exists_of_map_eq_ok h
    obtain ⟨rest, target, hbudget, htarget, hconvert⟩ := exists_of_follower_eq_ok hn
    exact .inl ⟨reference, finish, rest, target, n, rfl, hbudget, htarget, hconvert, hfinish⟩
  | parts ps build =>
    rw [hplan] at h
    obtain ⟨nodes, hnodes, hbuilt⟩ := exists_of_bind_eq_ok h
    rw [convertParts_eq_ok_iff, ← convert_eq_convertWith] at hnodes
    exact .inr ⟨ps, build, nodes, rfl, hnodes, hbuilt⟩

theorem convert_of_reference {reference target : Json} {finish : SchemaNode → SchemaNode}
    (hplan : planOf schema = .reference reference finish)
    (htarget : sources.target reference location = .ok target)
    (h : convert sources stop budget target location = .ok node) :
    convert sources stop (budget + 1) schema location = .ok (finish node) := by
  rw [convert_eq_run, hplan, Plan.run, follower, htarget]
  dsimp only
  rw [h]
  rfl

theorem convert_of_parts {ps : List (Json × List String)}
    {build : Location → List SchemaNode → Result} {nodes : List SchemaNode}
    (hplan : planOf schema = .parts ps build)
    (h : List.Forall₂ (fun part n =>
      convert sources stop budget part.1 (location.below part.2) = .ok n) ps nodes) :
    convert sources stop budget schema location = build location nodes := by
  rw [convert_eq_convertWith] at h
  rw [convert_eq_run, hplan, Plan.run, convertParts_eq_ok_iff.mpr h]
  rfl

/-- A conversion that fails does so at the reference, at one of the parts, or on its own. -/
theorem cases_of_convert_eq_error {e : ConversionError}
    (h : convert sources stop budget schema location = .error e) :
    (∃ error, planOf schema = .failure error ∧ error location = e) ∨
      (∃ reference finish, planOf schema = .reference reference finish ∧
        follower sources stop budget reference location = .error e) ∨
      (∃ ps build part, planOf schema = .parts ps build ∧ part ∈ ps ∧
        convert sources stop budget part.1 (location.below part.2) = .error e) ∨
      ∃ ps build nodes, planOf schema = .parts ps build ∧
        List.Forall₂ (fun part n =>
          convert sources stop budget part.1 (location.below part.2) = .ok n) ps nodes ∧
        build location nodes = .error e := by
  rw [convert_eq_run] at h
  -- a conversion is its plan, run; it can fail where the plan says, in a part, or in what is built
  cases hplan : planOf schema with
  | failure error =>
    rw [hplan] at h
    exact .inl ⟨error, rfl, Except.error.inj h⟩
  | reference reference finish =>
    rw [hplan] at h
    exact .inr (.inl ⟨reference, finish, rfl, eq_error_of_map_eq_error h⟩)
  | parts ps build =>
    rw [hplan, Plan.run] at h
    refine .inr (.inr ?_)
    cases hnodes : convertParts (follower sources stop budget) location ps with
    | error e' =>
      rw [hnodes] at h
      cases h
      obtain ⟨part, hpart, hfails⟩ := exists_of_convertParts_eq_error hnodes
      rw [← convert_eq_convertWith] at hfails
      exact .inl ⟨ps, build, part, rfl, hpart, hfails⟩
    | ok nodes =>
      rw [hnodes] at h
      rw [convertParts_eq_ok_iff, ← convert_eq_convertWith] at hnodes
      exact .inr ⟨ps, build, nodes, rfl, hnodes, h⟩

end

/-! ## Success -/

section
variable {sources : Sources} {stop : Json → Location → ConversionError} {budget : Nat}
  {schema : Json}

/-- Whether a schema has a structural form at some location. -/
def Succeeds (sources : Sources) (stop : Json → Location → ConversionError) (budget : Nat)
    (schema : Json) : Prop :=
  ∃ location node, convert sources stop budget schema location = .ok node

theorem Succeeds.part (h : Succeeds sources stop budget schema) {part : Json}
    (hpart : part ∈ (planOf schema).schemas) : Succeeds sources stop budget part := by
  obtain ⟨location, node, h⟩ := h
  rcases cases_of_convert_eq_ok h with ⟨_, _, _, _, _, hplan, -⟩ | ⟨ps, _, nodes, hplan, hparts, -⟩
  · rw [hplan] at hpart
    cases hpart
  · rw [hplan] at hpart
    obtain ⟨pair, hpair, rfl⟩ := List.mem_map.mp hpart
    obtain ⟨n, -, hn⟩ := exists_right_of_forall₂ hparts hpair
    exact ⟨_, n, hn⟩

theorem Succeeds.target (h : Succeeds sources stop budget schema) {reference : Json}
    (hreference : (planOf schema).reference? = some reference) :
    ∃ rest target location, budget = rest + 1 ∧ sources.target reference location = .ok target ∧
      Succeeds sources stop rest target := by
  obtain ⟨location, node, h⟩ := h
  rcases cases_of_convert_eq_ok h with
    ⟨r, _, rest, target, n, hplan, hbudget, htarget, hn, -⟩ | ⟨_, _, _, hplan, -⟩
  · rw [hplan] at hreference
    cases hreference
    exact ⟨rest, target, location, hbudget, htarget, location, n, hn⟩
  · rw [hplan] at hreference
    cases hreference

/-- A conversion that succeeds has succeeded at every schema that it has come to. -/
theorem Reached.succeeds {leads : Json → Json → Prop} {reached : Json}
    (hreached : Reached leads schema reached)
    (hleads : ∀ reference target location, leads reference target →
      ∀ other, sources.target reference location = .ok other → other = target)
    (h : Succeeds sources stop budget schema) :
    ∃ rest ≤ budget, Succeeds sources stop rest reached := by
  induction hreached with
  | start => exact ⟨budget, Nat.le_refl _, h⟩
  | part _ hpart ih =>
    obtain ⟨rest, hle, hsucceeds⟩ := ih
    exact ⟨rest, hle, hsucceeds.part hpart⟩
  | target _ hreference hlead ih =>
    obtain ⟨rest, hle, hsucceeds⟩ := ih
    obtain ⟨less, other, location, rfl, htarget, hother⟩ := hsucceeds.target hreference
    cases hleads _ _ location hlead other htarget
    exact ⟨less, by omega, hother⟩

/-- A conversion that succeeds has followed no reference back to the schema that it started from. -/
theorem Reached.not_leads_start {leads : Json → Json → Prop} {reached reference : Json}
    (hreached : Reached leads schema reached)
    (hreference : (planOf reached).reference? = some reference)
    (hleads : ∀ reference target location, leads reference target →
      ∀ other, sources.target reference location = .ok other → other = target)
    (h : Succeeds sources stop budget schema) : ¬leads reference schema := by
  intro hback
  -- Each time around there is less of the budget left.
  induction budget using Nat.strongRecOn with
  | ind budget ih =>
    obtain ⟨rest, hle, hsucceeds⟩ := hreached.succeeds hleads h
    obtain ⟨less, other, location, rfl, htarget, hagain⟩ := hsucceeds.target hreference
    cases hleads _ _ location hback other htarget
    exact ih less (by omega) hagain

end

/-! ## Other sources -/

section
variable {sources sources' : Sources} {stop stop' : Json → Location → ConversionError}

/-- A conversion that succeeds gives the same node at every location, under every greater budget,
and from all sources in which the references on the way lead to the same schemas. -/
theorem convert_eq_ok_of_same (leads : Json → Json → Prop) {budget budget' : Nat}
    (hle : budget ≤ budget') {schema : Json}
    (hsame : ∀ reached reference, Reached leads schema reached →
      (planOf reached).reference? = some reference → ∀ l target,
        sources.target reference l = .ok target →
          leads reference target ∧ ∀ l', sources'.target reference l' = .ok target)
    {location location' : Location} {node : SchemaNode}
    (h : convert sources stop budget schema location = .ok node) :
    convert sources' stop' budget' schema location' = .ok node := by
  -- by what is visited: a reference spends one of the budget, a part is smaller
  induction budget, schema using visit_induction generalizing budget' location location' node with
  | step budget schema ihpart ihtarget =>
    rcases cases_of_convert_eq_ok h with
      ⟨r, finish, rest, target, n, hplan, rfl, htarget, hn, rfl⟩ |
      ⟨ps, build, nodes, hplan, hparts, hbuilt⟩
    · have hreference := reference?_of_planOf hplan
      obtain ⟨hlead, htarget'⟩ := hsame schema r .start hreference location target htarget
      obtain ⟨rest', rfl⟩ : ∃ rest', budget' = rest' + 1 := ⟨budget' - 1, by omega⟩
      have hn' : convert sources' stop' rest' target location' = .ok n :=
        ihtarget rest target rfl (by omega)
          (fun reached reference hreached =>
            hsame reached reference ((Reached.start.target hreference hlead).trans hreached)) hn
      exact convert_of_reference hplan (htarget' location') hn'
    · -- Each part is converted at another location as well, and what is built of them is the same.
      have hmem : ∀ part ∈ ps, part.1 ∈ (planOf schema).schemas := fun part hpart =>
        mem_schemas_of_planOf hplan hpart
      have hparts' : List.Forall₂ (fun part n =>
          convert sources' stop' budget' part.1 (location'.below part.2) = .ok n) ps nodes := by
        refine ((List.forall₂_and_left ps nodes).mpr ⟨hmem, hparts⟩).imp fun part n hpart => ?_
        exact ihpart part.1 hpart.1 hle
          (fun reached reference hreached =>
            hsame reached reference ((Reached.start.part hpart.1).trans hreached)) hpart.2
      rw [convert_of_parts hplan hparts']
      have hsettled := settled_of_planOf hplan (suits_planOf_any schema) nodes
        fun _ _ _ _ => trivial
      exact hsettled.eq_ok hbuilt location'

end

/-! ## Descriptions and faults -/

section
variable {sources : Sources} {stop : Json → Location → ConversionError}

/-- The descriptions in a converted node are those of schemas that the conversion has come to. -/
theorem described_of_convert (leads : Json → Json → Prop) {p : Json → Prop} (hnull : p .null)
    (hleads : ∀ reference l target,
      sources.target reference l = .ok target → leads reference target)
    {budget : Nat} {schema : Json}
    (hdescription : ∀ reached, Reached leads schema reached → p (descriptionOf reached))
    {location : Location} {node : SchemaNode}
    (h : convert sources stop budget schema location = .ok node) : node.Described p := by
  induction budget, schema using visit_induction generalizing location node with
  | step budget schema ihpart ihtarget =>
    have hsuits : (planOf schema).Suits p (fun _ => True) (sizeOf schema) :=
      suits_planOf hnull (hdescription schema .start) fun _ _ => trivial
    rcases cases_of_convert_eq_ok h with
      ⟨r, finish, rest, target, n, hplan, rfl, htarget, hn, rfl⟩ |
      ⟨ps, build, nodes, hplan, hparts, hbuilt⟩
    · have hreached := Reached.start.target (reference?_of_planOf hplan)
        (hleads r location target htarget)
      rw [hplan] at hsuits
      cases hsuits with
      | reference hfinish =>
        exact hfinish n (ihtarget rest target rfl
          (fun reached h => hdescription reached (hreached.trans h)) hn)
    · refine (settled_of_planOf hplan hsuits nodes fun node hnode => ?_).good_of_eq_ok hbuilt
      obtain ⟨part, hpart, hn⟩ := exists_left_of_forall₂ hparts hnode
      have hmem := mem_schemas_of_planOf hplan hpart
      exact ihpart part.1 hmem
        (fun reached h => hdescription reached ((Reached.start.part hmem).trans h)) hn

/-- A conversion ends in a fault at a schema that it has come to: a keyword is misused, or there is
a reference that cannot be looked up or must not be followed. -/
theorem exists_reached_of_fault (leads : Json → Json → Prop)
    (hleads : ∀ reference l target,
      sources.target reference l = .ok target → leads reference target)
    {budget : Nat} {schema : Json} {location : Location} {fault : Fault}
    (h : convert sources stop budget schema location = .error (.fault fault)) :
    ∃ reached, Reached leads schema reached ∧ (Misused reached fault ∨
      ∃ reference l, (planOf reached).reference? = some reference ∧
        (sources.target reference l = .error (.fault fault) ∨
          stop reference l = .fault fault)) := by
  induction budget, schema using visit_induction generalizing location with
  | step budget schema ihpart ihtarget =>
    have hsuits : (planOf schema).Suits (fun _ => True) (Misused schema) (sizeOf schema) :=
      suits_planOf trivial trivial fun _ hf => hf
    -- the fault is stated by the plan, met on a reference, passed up by a part, or made in building
    rcases cases_of_convert_eq_error h with ⟨error, hplan, herror⟩ | ⟨r, finish, hplan, hfollow⟩ |
      ⟨ps, build, part, hplan, hpart, hfails⟩ | ⟨ps, build, nodes, hplan, -, hbuilt⟩
    · rw [hplan] at hsuits
      cases hsuits with
      | failure hbad => exact ⟨schema, .start, .inl (hbad location fault herror)⟩
    · have hreference := reference?_of_planOf hplan
      rcases cases_of_follower_eq_error hfollow with
        hstop | htarget | ⟨rest, target, rfl, htarget, hfails⟩
      · exact ⟨schema, .start, .inr ⟨r, location, hreference, .inr hstop⟩⟩
      · exact ⟨schema, .start, .inr ⟨r, location, hreference, .inl htarget⟩⟩
      · obtain ⟨reached, hreached, hcause⟩ := ihtarget rest target rfl hfails
        have hstep := Reached.start.target hreference (hleads r location target htarget)
        exact ⟨reached, hstep.trans hreached, hcause⟩
    · have hmem := mem_schemas_of_planOf hplan hpart
      obtain ⟨reached, hreached, hcause⟩ := ihpart part.1 hmem hfails
      exact ⟨reached, (Reached.start.part hmem).trans hreached, hcause⟩
    · have hsettled := settled_of_planOf hplan hsuits nodes fun _ _ _ _ => trivial
      exact ⟨schema, .start, .inl (hsettled.bad_of_eq_fault hbuilt)⟩

end

end SchemaTypings.Schema
