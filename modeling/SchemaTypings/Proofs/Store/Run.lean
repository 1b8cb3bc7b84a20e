/-
  SchemaTypings.Proofs.Store.Run

  Runs of calls on the modules of a store.  A call that fails leaves the store as it is.  Of each
  operation there is one lemma that says what the store is after it.
-/
import SchemaTypings.Output.Store
import SchemaTypings.Proofs.Store.Forest
import Mathlib.Logic.Relation

namespace SchemaTypings.OutputStore

/-- One call on the modules of a store. -/
inductive Call where
  | construct (description : OutputModule.Description)
  | push (parent child : Nat)
  | moveUnder (id : Nat) (segments : List String)
  | flatten (id : Nat) (renderer? : Option IndexRenderer)

/-- The store after a call that succeeds. -/
def perform (s : OutputStore) : Call → Except Failure OutputStore
  | .construct description =>
    match OutputModule.ofDescription description with
    | .error e => .error (.generation e)
    | .ok m => .ok (s.add m).1
  | .push parent child => (s.push parent child).mapError .generation
  | .moveUnder id segments => (s.moveUnder id segments).mapError .generation
  | .flatten id renderer? => (s.flatten id renderer?).map Prod.snd

/-- The store after a call, successful or not. -/
def after (s : OutputStore) (call : Call) : OutputStore :=
  match s.perform call with
  | .ok next => next
  | .error _ => s

/-- The store after calls, one after the other. -/
def afterAll (s : OutputStore) (calls : List Call) : OutputStore := calls.foldl after s

/-- The store that calls build from nothing. -/
def run (calls : List Call) : OutputStore := afterAll {} calls

theorem run_append (calls later : List Call) : run (calls ++ later) = (run calls).afterAll later := by
  rw [run, run, afterAll, List.foldl_append]
  rfl

/-! ## Looking -/

/-- The number of the module that another stands directly under. -/
def parentId? (s : OutputStore) (id : Nat) : Option Nat := (s.parent? id).map StoredModule.id

/-- The numbers of the modules directly under a module, in order. -/
def childIds (s : OutputStore) (id : Nat) : List Nat :=
  ((s.find? id).map fun t => t.children.map fun c => c.value.id).getD []

/-- Whether a module stands under another, directly or further down. -/
def IsBelow (s : OutputStore) : Nat → Nat → Prop :=
  Relation.TransGen fun lower upper => s.parentId? lower = some upper

/-- Whether a module is frozen. -/
def isFrozen (s : OutputStore) (id : Nat) : Bool :=
  ((s.find? id).map fun t => t.value.isFrozen).getD false

/-- The files that a module keeps, if it has been flattened. -/
def kept? (s : OutputStore) (id : Nat) : Option Flattened :=
  (s.find? id).bind fun t => t.value.flattened?

/-- A module with all below it, as it would be flattened. -/
def outputTree? (s : OutputStore) (id : Nat) : Option OutputTree :=
  (s.find? id).map (Tree.map StoredModule.module)

/-! ## What the operations give -/

/-- A push changes nothing, or puts a free root under another module; neither is frozen. -/
theorem push_cases {s s' : OutputStore} {parent child : Nat} (h : s.push parent child = .ok s') :
    s' = s ∨ ∃ p c, s.find? parent = some p ∧ s.find? child = some c ∧
      p.value.isFrozen = false ∧ c.value.isFrozen = false ∧ s.parent? child = none ∧
      (∀ m ∈ c.toList, m.id ≠ parent) ∧
      s' = ⟨Tree.updateAll (fun m => m.id = parent) (·.push c)
        (s.trees.filter fun t => t.value.id ≠ child), s.next⟩ := by
  unfold push at h
  split at h
  · next p c hp hc =>
    dsimp only at h
    split at h
    · cases h
    · next hpFree =>
      split at h
      · cases h
      · next hcFree =>
        split at h
        · cases h
        · next howner =>
          split at h
          · cases h
          · next hcycle =>
            refine .inr ⟨p, c, hp, hc, by simpa using hpFree, by simpa using hcFree, howner, ?_, ?_⟩
            · intro m hm heq
              exact hcycle (List.any_eq_true.mpr ⟨m, hm, by simpa using heq⟩)
            · cases h
              rfl
  · cases h
    exact .inl rfl

/-- A move changes nothing, or the directories of one module under which nothing is frozen. -/
theorem moveUnder_cases {s s' : OutputStore} {id : Nat} {segments : List String}
    (h : s.moveUnder id segments = .ok s') :
    s' = s ∨ ∃ t, s.find? id = some t ∧ (∀ m ∈ t.toList, m.isFrozen = false) ∧
      s' = s.update id fun t =>
        t.withValue { t.value with module := t.value.module.moveUnder segments } := by
  unfold moveUnder at h
  split at h
  · cases h
    exact .inl rfl
  · next t ht =>
    split at h
    · cases h
    · next hfree =>
      refine .inr ⟨t, ht, ?_, ?_⟩
      · intro m hm
        simpa using List.find?_eq_none.mp hfree m hm
      · cases h
        rfl

/-- Flattening gives the kept files and changes nothing, or produces files, keeps them and freezes
the module with all below it. -/
theorem flatten_cases {s s' : OutputStore} {id : Nat} {renderer? : Option IndexRenderer}
    {files : List File} (h : s.flatten id renderer? = .ok (files, s')) :
    (s' = s ∧ ∀ kept, s.kept? id = some kept → files = kept.files) ∨
      ∃ t, s.find? id = some t ∧ t.value.flattened? = none ∧
        OutputTree.flatten (t.map StoredModule.module) renderer? = .ok files ∧
        s' = s.update id (freeze ⟨files, renderer?⟩) := by
  unfold flatten at h
  split at h
  · next hnone =>
    cases h
    exact .inl ⟨rfl, by simp [kept?, hnone]⟩
  · next t ht =>
    split at h
    · next kept hkept =>
      split at h
      · cases h
      · cases h
        refine .inl ⟨rfl, ?_⟩
        intro other hother
        simp only [kept?, ht, Option.bind_some, hkept, Option.some.injEq] at hother
        rw [hother]
    · next hnone =>
      cases hrun : OutputTree.flatten (t.map StoredModule.module) renderer? with
      | error e => rw [hrun] at h; cases h
      | ok produced =>
        rw [hrun] at h
        cases h
        exact .inr ⟨t, ht, hnone, hrun, rfl⟩

/-! ## What a call does -/

/-- What one call can make of a store. -/
inductive Step (s : OutputStore) : OutputStore → Prop where
  | stay : Step s s
  | add (m : OutputModule) : Step s (s.add m).1
  | push {s' : OutputStore} {parent child : Nat} (h : s.push parent child = .ok s') : Step s s'
  | moveUnder {s' : OutputStore} {id : Nat} {segments : List String}
      (h : s.moveUnder id segments = .ok s') : Step s s'
  | flatten {s' : OutputStore} {id : Nat} {renderer? : Option IndexRenderer} {files : List File}
      (h : s.flatten id renderer? = .ok (files, s')) : Step s s'

theorem step_after (s : OutputStore) (call : Call) : Step s (s.after call) := by
  rw [after]
  split
  · next next hok =>
    cases call with
    | construct description =>
      rw [perform] at hok
      split at hok
      · cases hok
      · cases hok
        exact .add _
    | push parent child =>
      rw [perform] at hok
      cases hpush : s.push parent child with
      | error e => rw [hpush] at hok; cases hok
      | ok s' => rw [hpush] at hok; cases hok; exact .push hpush
    | moveUnder id segments =>
      rw [perform] at hok
      cases hmove : s.moveUnder id segments with
      | error e => rw [hmove] at hok; cases hok
      | ok s' => rw [hmove] at hok; cases hok; exact .moveUnder hmove
    | flatten id renderer? =>
      rw [perform] at hok
      cases hflat : s.flatten id renderer? with
      | error e => rw [hflat] at hok; cases hok
      | ok result => rw [hflat] at hok; cases hok; exact .flatten hflat
  · exact .stay

end SchemaTypings.OutputStore
