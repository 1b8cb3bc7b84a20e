/-
  SchemaTypings.Proofs.Schema.Descent

  Why every conversion ends.  A call keeps the depth and goes to a smaller value, or it follows a
  reference and comes one deeper, which the budget bounds.  So what the calls ask of each other has
  one answer.  A conversion that would come back to a reference on the way through it has no node,
  under any budget.
-/
import SchemaTypings.Proofs.Schema.Calls
import SchemaTypings.Proofs.Schema.Nesting
import Mathlib.Logic.Relation

namespace SchemaTypings

/-! ## Values inside values -/

/-- Whether a value is inside another, at any depth. -/
inductive Inside : Json → Json → Prop where
  | item {items : List Json} {value : Json} (h : value ∈ items) : Inside (.arr items) value
  | value {entries : Entries Json} {key : String} {value : Json} (h : (key, value) ∈ entries) :
      Inside (.obj entries) value
  | trans {a b c : Json} (hab : Inside a b) (hbc : Inside b c) : Inside a c

theorem Inside.of_get? {entries : Entries Json} {key : String} {value : Json}
    (h : entries.get? key = some value) : Inside (.obj entries) value :=
  .value (Entries.mem_of_get? h)

theorem Inside.sizeOf_lt {a b : Json} (h : Inside a b) : sizeOf b < sizeOf a := by
  induction h with
  | item h =>
    have hlt := List.sizeOf_lt_of_mem h
    simp only [Json.arr.sizeOf_spec]
    omega
  | value h =>
    have hlt := List.sizeOf_lt_of_mem h
    simp only [Json.obj.sizeOf_spec]
    simp only [Prod.mk.sizeOf_spec] at hlt
    omega
  | trans _ _ ihab ihbc => exact Nat.lt_trans ihbc ihab

theorem Entries.sizeOf_insert_lt {es : Entries Json} {key : String} {old new : Json}
    (h : es.get? key = some old) (hlt : sizeOf new < sizeOf old) :
    sizeOf (es.insert key new) < sizeOf es := by
  induction es with
  | nil => cases h
  | cons e rest ih =>
    obtain ⟨k, v⟩ := e
    rw [get?_cons] at h
    rw [insert]
    split at h
    · next hk =>
      cases h
      rw [if_pos hk]
      simp only [List.cons.sizeOf_spec, Prod.mk.sizeOf_spec]
      omega
    · next hk =>
      have hrest := ih h
      rw [if_neg hk]
      simp only [List.cons.sizeOf_spec]
      omega

theorem Entries.sizeOf_erase_le (es : Entries Json) (key : String) :
    sizeOf (es.erase key) ≤ sizeOf es := by
  induction es with
  | nil => exact Nat.le_refl _
  | cons e rest ih =>
    obtain ⟨k, v⟩ := e
    rw [erase_cons]
    split <;> simp only [List.cons.sizeOf_spec] <;> omega

namespace Schema

/-! ## Parts are inside -/

section
variable {schema : Entries Json} {part : Json}

@[simp] theorem Plan.schemas_map (f : SchemaNode → SchemaNode) (plan : Plan) :
    (plan.map f).schemas = plan.schemas := by
  cases plan <;> rfl

theorem inside_of_mem_planOfList {keyword : String} {schemas : Json}
    {build : Location → List SchemaNode → Result}
    (h : part ∈ (planOfList keyword schemas build).schemas) : Inside schemas part := by
  unfold planOfList at h
  split at h
  · rw [Plan.schemas, map_fst_listed] at h
    exact .item h
  · cases h

theorem inside_of_mem_planOfObject {note : Note} (h : part ∈ (planOfObject schema note).schemas) :
    Inside (.obj schema) part := by
  unfold planOfObject at h
  split at h
  · cases h
  · split at h
    · split at h
      · next properties hproperties =>
        rw [Plan.schemas, List.map_map] at h
        obtain ⟨property, hproperty, rfl⟩ := List.mem_map.mp h
        exact (Inside.of_get? hproperties).trans (.value hproperty)
      · cases h
    · split at h
      · cases h
      · next values hvalues =>
        cases List.mem_singleton.mp h
        exact .of_get? hvalues
      · cases h

theorem inside_of_mem_planOfArray {note : Note} (h : part ∈ (planOfArray schema note).schemas) :
    Inside (.obj schema) part := by
  unfold planOfArray at h
  split at h
  · cases h
  · cases h
  · cases h
  · next items hitems =>
    cases List.mem_singleton.mp h
    exact .of_get? hitems

theorem inside_of_mem_planOfTyped {type description : Json}
    (h : part ∈ (planOfTyped schema type description).schemas) : Inside (.obj schema) part := by
  -- Along the lists of one type, as the plan is made.
  induction hsize : sizeOf type using Nat.strongRecOn generalizing type with
  | ind size ih =>
    rw [planOfTyped.eq_def] at h
    dsimp only at h
    split at h
    · split at h
      · exact inside_of_mem_planOfObject h
      · split at h
        · exact inside_of_mem_planOfArray h
        · cases h
    · cases h
    · next only =>
      refine ih (sizeOf only) ?_ h rfl
      rw [← hsize]
      simp
      omega
    · split at h
      · split at h
        · cases h
        · split at h
          · rw [Plan.schemas_map] at h
            exact inside_of_mem_planOfObject h
          · rw [Plan.schemas_map] at h
            exact inside_of_mem_planOfArray h
      · cases h
    · exact inside_of_mem_planOfObject h
    · exact inside_of_mem_planOfArray h
    · cases h

theorem inside_of_mem_planOfEntries (h : part ∈ (planOfEntries schema).schemas) :
    Inside (.obj schema) part := by
  unfold planOfEntries at h
  split at h
  · cases h
  · split at h
    · cases h
    · split at h
      · next hoptions => exact (Inside.of_get? hoptions).trans (inside_of_mem_planOfList h)
      · split at h
        · next hoptions => exact (Inside.of_get? hoptions).trans (inside_of_mem_planOfList h)
        · split at h
          · next hschemas => exact (Inside.of_get? hschemas).trans (inside_of_mem_planOfList h)
          · exact inside_of_mem_planOfTyped h

end

/-! ## Calls -/

/-- What a call at the same depth goes to: a value inside, or a copy with one type in place of a
list of types.  Of several types that is a name. -/
inductive Shrinks : Json → Task → Prop where
  | inside {value part : Json} (h : Inside value part) : Shrinks value (.schema part)
  | retyped {schema : Entries Json} {types : List Json} {type : Json}
      (htypes : schema.get? "type" = some (.arr types)) (htype : type ∈ types)
      (hname : types = [type] ∨ ∃ name, type = .str name) :
      Shrinks (.obj schema) (.keywords (retyped schema type))
  | retypedPlain {schema : Entries Json} {types : List Json} {name : String}
      (htypes : schema.get? "type" = some (.arr types)) (htype : .str name ∈ types) :
      Shrinks (.obj schema) (.keywords (retypedPlain schema (.str name)))

theorem Shrinks.sizeOf_lt {value : Json} {next : Task} (h : Shrinks value next) :
    sizeOf next.value < sizeOf value := by
  have hretyped : ∀ {schema : Entries Json} {types : List Json} {type : Json},
      schema.get? "type" = some (.arr types) → type ∈ types →
        sizeOf (Schema.retyped schema type) < sizeOf schema := fun htypes htype =>
    Entries.sizeOf_insert_lt htypes (Inside.item htype).sizeOf_lt
  cases h with
  | inside h => exact h.sizeOf_lt
  | retyped htypes htype hname =>
    have hlt := hretyped htypes htype
    simp only [Task.value, Json.obj.sizeOf_spec]
    omega
  | @retypedPlain schema types name htypes htype =>
    have hlt := hretyped htypes htype
    have hle := Entries.sizeOf_erase_le (Schema.retyped schema (.str name)) "description"
    simp only [Task.value, Json.obj.sizeOf_spec, Schema.retypedPlain]
    omega

theorem shrinks_of_mem_outline {value : Json} {plan : Plan}
    (hplan : ∀ part ∈ plan.schemas, Inside value part) {next : Task}
    (h : next ∈ plan.outline.tasks) : Shrinks value next := by
  cases plan with
  | failure error => cases h
  | reference r finish => cases h
  | parts ps build =>
    rw [Plan.outline, Outline.tasks, List.map_map] at h
    obtain ⟨part, hpart, rfl⟩ := List.mem_map.mp h
    exact .inside (hplan part.1 (List.mem_map_of_mem hpart))

theorem shrinks_of_mem_outlineOfTypes {schema : Entries Json} {types : List Json}
    (htypes : schema.get? "type" = some (.arr types)) {next : Task}
    (h : next ∈ (outlineOfTypes schema types).tasks) : Shrinks (.obj schema) next := by
  unfold outlineOfTypes at h
  split at h
  · cases h
  · next only =>
    cases List.mem_singleton.mp h
    exact .retyped htypes (List.mem_singleton_self _) (.inl rfl)
  · split at h
    · next structured hfind =>
      split at h
      · cases h
      · cases List.mem_singleton.mp h
        refine .retyped htypes (List.mem_of_find?_eq_some hfind) (.inr ?_)
        rcases eq_of_isStructured (List.find?_some hfind) with rfl | rfl
        · exact ⟨_, rfl⟩
        · exact ⟨_, rfl⟩
    · rw [Outline.tasks, List.map_map] at h
      obtain ⟨type, htype, rfl⟩ := List.mem_map.mp h
      have hprimitive := List.all_eq_true.mp List.all_takeWhile type htype
      unfold isPrimitiveName at hprimitive
      split at hprimitive
      · exact .retypedPlain htypes ((List.takeWhile_sublist _).mem htype)
      · cases hprimitive

theorem shrinks_of_mem_outlineOfKeywords {schema : Entries Json} {next : Task}
    (h : next ∈ (outlineOfKeywords schema).tasks) : Shrinks (.obj schema) next := by
  unfold outlineOfKeywords at h
  split at h
  · next types htypes => exact shrinks_of_mem_outlineOfTypes (of_typeList? htypes).2 h
  · exact shrinks_of_mem_outline (fun _ => inside_of_mem_planOfEntries) h

/-- A task calls for less than it is about. -/
theorem shrinks_of_mem_tasks {task next : Task} (h : next ∈ (outlineOf task).tasks) :
    Shrinks task.value next := by
  unfold outlineOf at h
  split at h
  · exact shrinks_of_mem_outlineOfKeywords h
  · next entries =>
    split at h
    · cases h
    · rw [Outline.tasks_map] at h
      split at h
      · next reference href =>
        rw [planOfReference, href] at h
        cases h
      · exact shrinks_of_mem_outlineOfKeywords h
  · next value hobj =>
    cases value with
    | bool b => cases b <;> cases h
    | obj entries => exact absurd rfl (hobj entries)
    | _ => cases h

/-- The calls of a conversion under a budget, with the number of references that are followed
around each. -/
inductive Calls (sources : Sources) (budget : Nat) : Nat × Task → Nat × Task → Prop where
  | keep {depth : Nat} {task next : Task} (h : next ∈ (outlineOf task).tasks) :
      Calls sources budget (depth, task) (depth, next)
  | follow {depth : Nat} {task : Task} {reference target : Json}
      (hreference : (outlineOf task).reference? = some reference) (hbudget : depth < budget)
      (hleads : sources.LeadsTo reference target) :
      Calls sources budget (depth, task) (depth + 1, .schema target)

section
variable {sources : Sources} {budget : Nat}

theorem Calls.le_budget {here next : Nat × Task} (h : Calls sources budget here next)
    (hhere : here.1 ≤ budget) : next.1 ≤ budget := by
  cases h with
  | keep _ => exact hhere
  | follow _ hbudget _ => exact hbudget

/-- There is no endless chain of calls. -/
theorem wellFounded_calls (sources : Sources) (budget : Nat) :
    WellFounded fun next here => Calls sources budget here next := by
  -- The budget that is left, then the size of the value.
  have hlex := InvImage.wf (fun here : Nat × Task => (budget - here.1, sizeOf here.2.value))
    (Prod.lex Nat.lt_wfRel Nat.lt_wfRel).wf
  refine Subrelation.wf (fun {next here} h => ?_) hlex
  cases h with
  | keep h => exact .right _ (shrinks_of_mem_tasks h).sizeOf_lt
  | follow _ hbudget _ => exact .left _ _ (Nat.sub_succ_lt_self _ _ hbudget)

end

/-! ## What the calls ask of each other -/

/-- How a conversion goes on at a reference that is as deep as given. -/
def followAt (sources : Sources) (stop : Json → Location → ConversionError) (budget : Nat)
    (f : Nat → Task → Location → Result) (depth : Nat) (reference : Json) (location : Location) :
    Result :=
  if depth < budget then
    match sources.target reference location with
    | .error e => .error e
    | .ok target => f (depth + 1) (.schema target) location
  else .error (stop reference location)

/-- Whether what is given for each task and depth is what its outline makes of that for the tasks
that are called. -/
def IsConversion (sources : Sources) (stop : Json → Location → ConversionError) (budget : Nat)
    (f : Nat → Task → Location → Result) : Prop :=
  ∀ depth task location, f depth task location =
    (outlineOf task).run (f depth) (followAt sources stop budget f depth) location

theorem runCalls_congr {run run' : Task → Location → Result} {cs : List (Task × List String)}
    (h : ∀ task ∈ cs.map Prod.fst, run task = run' task) (location : Location) :
    runCalls run location cs = runCalls run' location cs := by
  induction cs with
  | nil => rfl
  | cons call rest ih =>
    obtain ⟨task, steps⟩ := call
    rw [List.map_cons, List.forall_mem_cons] at h
    rw [runCalls, runCalls, h.1, ih h.2]

theorem Outline.run_congr {outline : Outline} {run run' : Task → Location → Result}
    {follow follow' : Json → Location → Result} {location : Location}
    (hrun : ∀ task ∈ outline.tasks, run task = run' task)
    (hfollow : ∀ reference, outline.reference? = some reference →
      follow reference location = follow' reference location) :
    outline.run run follow location = outline.run run' follow' location := by
  cases outline with
  | failure error => rfl
  | reference r finish => rw [Outline.run, Outline.run, hfollow r rfl]
  | calls cs build => rw [Outline.run, Outline.run, runCalls_congr hrun]

section
variable {sources : Sources} {stop : Json → Location → ConversionError} {budget : Nat}

/-- What the calls ask of each other has no more than one answer. -/
theorem IsConversion.eq {f g : Nat → Task → Location → Result}
    (hf : IsConversion sources stop budget f) (hg : IsConversion sources stop budget g) :
    f = g := by
  have heq : ∀ here : Nat × Task, f here.1 here.2 = g here.1 here.2 := by
    intro here
    induction here using (wellFounded_calls sources budget).induction with
    | h here ih =>
      obtain ⟨depth, task⟩ := here
      funext location
      rw [hf, hg]
      refine Outline.run_congr (fun next hnext => ih (depth, next) (.keep hnext)) ?_
      intro reference hreference
      unfold followAt
      split
      · next hbudget =>
        cases htarget : sources.target reference location with
        | error e => rfl
        | ok target =>
          have hcall := Calls.follow hreference hbudget ⟨location, htarget⟩
          exact congrFun (ih (depth + 1, .schema target) hcall) location
      · rfl
  funext depth task
  exact heq (depth, task)

/-- The conversion at a depth, with the rest of the budget. -/
def conversionAt (sources : Sources) (stop : Json → Location → ConversionError) (budget depth : Nat)
    (task : Task) (location : Location) : Result :=
  convertTask (follower sources stop (budget - depth)) task location

theorem isConversion_conversionAt :
    IsConversion sources stop budget (conversionAt sources stop budget) := by
  intro depth task location
  rw [conversionAt, convertTask_eq_run]
  refine Outline.run_congr (fun _ _ => rfl) fun reference _ => ?_
  unfold followAt
  split
  · next hbudget =>
    obtain ⟨rest, hrest⟩ : ∃ rest, budget - depth = rest + 1 := ⟨budget - depth - 1, by omega⟩
    have hnext : budget - (depth + 1) = rest := by omega
    rw [hrest, follower]
    cases sources.target reference location with
    | error e => rfl
    | ok target =>
      dsimp only
      rw [conversionAt, hnext, convertTask, convert_eq_convertWith]
  · next hbudget =>
    have hnone : budget - depth = 0 := by omega
    rw [hnone, follower]

/-! ## Coming back -/

/-- Whether a task has a structural form at some location. -/
def TaskSucceeds (sources : Sources) (stop : Json → Location → ConversionError) (budget : Nat)
    (task : Task) : Prop :=
  ∃ location node, convertTask (follower sources stop budget) task location = .ok node

/-- Whether a conversion comes from one task to another, whatever the budget. -/
def Comes (sources : Sources) : Task → Task → Prop :=
  Relation.ReflTransGen fun task next =>
    ∃ budget depth depth', Calls sources budget (depth, task) (depth', next)

theorem exists_of_runCalls_eq_ok {run : Task → Location → Result} {location : Location}
    {cs : List (Task × List String)} {nodes : List SchemaNode}
    (h : runCalls run location cs = .ok nodes) {task : Task} (htask : task ∈ cs.map Prod.fst) :
    ∃ l node, run task l = .ok node := by
  induction cs generalizing nodes with
  | nil => cases htask
  | cons call rest ih =>
    obtain ⟨first, steps⟩ := call
    rw [runCalls] at h
    cases hnode : run first (location.below steps) with
    | error e => rw [hnode] at h; cases h
    | ok node =>
      rw [hnode] at h
      obtain ⟨more, hmore, rfl⟩ := exists_of_map_eq_ok h
      rcases List.mem_cons.mp htask with rfl | htask
      · exact ⟨_, node, hnode⟩
      · exact ih hmore htask

theorem TaskSucceeds.call {task next : Task} (h : TaskSucceeds sources stop budget task)
    (hnext : next ∈ (outlineOf task).tasks) : TaskSucceeds sources stop budget next := by
  obtain ⟨location, node, h⟩ := h
  rw [convertTask_eq_run] at h
  cases houtline : outlineOf task with
  | failure error => rw [houtline] at hnext; cases hnext
  | reference r finish => rw [houtline] at hnext; cases hnext
  | calls cs build =>
    rw [houtline] at h hnext
    obtain ⟨nodes, hnodes, -⟩ := exists_of_bind_eq_ok h
    exact exists_of_runCalls_eq_ok hnodes hnext

theorem TaskSucceeds.follow {task : Task} {reference target : Json}
    (h : TaskSucceeds sources stop budget task)
    (hreference : (outlineOf task).reference? = some reference)
    (hleads : sources.LeadsTo reference target) :
    ∃ rest, budget = rest + 1 ∧ TaskSucceeds sources stop rest (.schema target) := by
  obtain ⟨location, node, h⟩ := h
  rw [convertTask_eq_run] at h
  cases houtline : outlineOf task with
  | failure error => rw [houtline] at hreference; cases hreference
  | calls cs build => rw [houtline] at hreference; cases hreference
  | reference r finish =>
    rw [houtline] at h hreference
    cases hreference
    obtain ⟨n, hn, -⟩ := exists_of_map_eq_ok h
    obtain ⟨rest, other, rfl, hother, hconvert⟩ := exists_of_follower_eq_ok hn
    cases Except.ok.inj (hother.symm.trans (hleads.target_eq location))
    rw [convert_eq_convertWith] at hconvert
    exact ⟨rest, rfl, location, n, hconvert⟩

theorem Comes.succeeds {task next : Task} (h : Comes sources task next)
    (hsucceeds : TaskSucceeds sources stop budget task) :
    ∃ rest ≤ budget, TaskSucceeds sources stop rest next := by
  induction h with
  | refl => exact ⟨budget, Nat.le_refl _, hsucceeds⟩
  | tail _ hcall ih =>
    obtain ⟨rest, hle, hthere⟩ := ih
    obtain ⟨_, _, _, hcall⟩ := hcall
    cases hcall with
    | keep hnext => exact ⟨rest, hle, hthere.call hnext⟩
    | follow hreference _ hleads =>
      obtain ⟨less, rfl, hless⟩ := hthere.follow hreference hleads
      exact ⟨less, by omega, hless⟩

/-- Where the way through a reference comes to the same reference again, there is no node. -/
theorem not_succeeds_of_comes_back {again : Task} {reference target : Json}
    (hleads : sources.LeadsTo reference target) (hcomes : Comes sources (.schema target) again)
    (hagain : (outlineOf again).reference? = some reference) :
    ¬TaskSucceeds sources stop budget (.schema target) := by
  intro h
  -- Each time around there is less of the budget left.
  induction budget using Nat.strongRecOn with
  | ind budget ih =>
    obtain ⟨rest, hle, hthere⟩ := hcomes.succeeds h
    obtain ⟨less, rfl, hless⟩ := hthere.follow hagain hleads
    exact ih less (by omega) hless

end

/-- Each call of a conversion keeps the depth and goes to something smaller, or follows a reference
and comes one deeper, and the depth never exceeds the budget.  There is thus no endless chain of
calls, and just one result for each task that agrees with those of the tasks it calls, the one that
the conversion gives.  A document in which the way through a reference comes to the same reference
again is not converted under any limit. -/
theorem conversion_ends (document : Json) (external? : Option (Json → Except Fault Json))
    (stop : Json → Location → ConversionError) (budget : Nat) :
    let sources : Sources := ⟨document, external?⟩
    (∀ here next, Calls sources budget here next →
      next.1 = here.1 ∧ Shrinks here.2.value next.2 ∧
          sizeOf next.2.value < sizeOf here.2.value ∨
        next.1 = here.1 + 1 ∧ ∃ reference target,
          (outlineOf here.2).reference? = some reference ∧ sources.LeadsTo reference target ∧
            next.2 = .schema target) ∧
    (∀ there, Relation.ReflTransGen (Calls sources budget) (0, .schema document) there →
      there.1 ≤ budget) ∧
    (WellFounded fun next here => Calls sources budget here next) ∧
    (∃! f, IsConversion sources stop budget f) ∧
    (∀ f, IsConversion sources stop budget f → ∀ schema location,
      f 0 (.schema schema) location = convert sources stop budget schema location) ∧
    ∀ expanding again reference target, Comes sources (.schema document) expanding →
      (outlineOf expanding).reference? = some reference → sources.LeadsTo reference target →
      Comes sources (.schema target) again → (outlineOf again).reference? = some reference →
      ∀ limit node, ofDocument document external? limit ≠ .ok node := by
  intro sources
  refine ⟨?step, ?depth, wellFounded_calls sources budget, ?unique, ?result, ?back⟩
  case step =>
    intro here next h
    cases h with
    | keep h => exact .inl ⟨rfl, shrinks_of_mem_tasks h, (shrinks_of_mem_tasks h).sizeOf_lt⟩
    | follow hreference _ hleads => exact .inr ⟨rfl, _, _, hreference, hleads, rfl⟩
  case depth =>
    intro there h
    induction h with
    | refl => exact Nat.zero_le _
    | tail _ hcall ih => exact hcall.le_budget ih
  case unique =>
    exact ⟨conversionAt sources stop budget, isConversion_conversionAt,
      fun f hf => hf.eq isConversion_conversionAt⟩
  case result =>
    intro f hf schema location
    rw [hf.eq isConversion_conversionAt, convert_eq_convertWith]
    rfl
  case back =>
    intro expanding again reference target hcomes hreference hleads hround hagain limit node h
    have hdocument : TaskSucceeds sources limit.failure limit.budget (.schema document) :=
      ⟨.root, node, by rw [convertTask, ← convert_eq_convertWith]; exact h⟩
    obtain ⟨rest, -, hthere⟩ := hcomes.succeeds hdocument
    obtain ⟨less, -, htarget⟩ := hthere.follow hreference hleads
    exact not_succeeds_of_comes_back hleads hround hagain htarget

/-- Lists of items that are such lists again or null. -/
def roundDocument : Json :=
  .obj [("$ref", .str "#/$defs/a"),
    ("$defs", .obj
      [("a", .obj [("type", .str "array"), ("items", .obj [("$ref", .str "#/$defs/b")])]),
        ("b", .obj [("oneOf", .arr
          [.obj [("$ref", .str "#/$defs/a")], .obj [("type", .str "null")]])])])]

theorem conversion_ends_roundDocument :
    ∀ external? limit node, ofDocument roundDocument external? limit ≠ .ok node := by
  intro external?
  let sources : Sources := ⟨roundDocument, external?⟩
  let toA : Json := .obj [("$ref", .str "#/$defs/a")]
  let toB : Json := .obj [("$ref", .str "#/$defs/b")]
  let a : Json := .obj [("type", .str "array"), ("items", toB)]
  let b : Json := .obj [("oneOf", .arr [toA, .obj [("type", .str "null")]])]
  have ha : sources.LeadsTo (.str "#/$defs/a") a := ⟨.root, by cbv⟩
  have hb : sources.LeadsTo (.str "#/$defs/b") b := ⟨.root, by cbv⟩
  have hitems : .schema toB ∈ (outlineOf (.schema a)).tasks := by
    have htasks : (outlineOf (.schema a)).tasks = [.schema toB] := by cbv
    exact htasks ▸ List.mem_cons_self
  have hoption : .schema toA ∈ (outlineOf (.schema b)).tasks := by
    have htasks : (outlineOf (.schema b)).tasks =
        [.schema toA, .schema (.obj [("type", .str "null")])] := by cbv
    exact htasks ▸ List.mem_cons_self
  have hround : Comes sources (.schema a) (.schema toA) := by
    refine .tail (.tail (.single ⟨1, 0, 0, .keep hitems⟩) ⟨1, 0, 1, ?_⟩) ⟨1, 1, 1, .keep hoption⟩
    exact .follow rfl (by decide) hb
  exact (conversion_ends roundDocument external? (fun _ _ => .fault .outOfReach) 0).2.2.2.2.2
    (.schema roundDocument) (.schema toA) (.str "#/$defs/a") a .refl rfl ha hround rfl

end Schema
end SchemaTypings
