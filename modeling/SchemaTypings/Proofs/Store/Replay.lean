/-
  SchemaTypings.Proofs.Store.Replay

  Calls carried out on cells.  On the cells of a store that a run has built, an operation answers as
  the store does, and what it has written is what the store becomes; when it fails it has written
  nothing.  So a call that fails can be left out of every sequence of calls.
-/
import SchemaTypings.Proofs.Store.Written

namespace SchemaTypings

open OutputStore (Call)

namespace Heap

/-! ## Steps -/

theorem run_write (id : Nat) (f : Cell → Cell) (h : Heap) :
    (write id f).run h = .ok () (h.written id f) := rfl

theorem run_raise {α : Type} (e : GenerationError) (h : Heap) :
    (raise e : Operation α).run h = .error (.generation e) h := rfl

theorem run_ofExcept {α : Type} (outcome : Except Failure α) (h : Heap) :
    (ofExcept outcome : Operation α).run h =
      match outcome with
      | .ok a => .ok a h
      | .error e => .error e h := by
  cases outcome <;> rfl

/-- The first frozen one of several modules is refused, before anything is written. -/
theorem run_forM_checkMovable (cells : List Cell) (h : Heap) :
    (forM cells checkMovable).run h =
      match cells.find? Cell.isFrozen with
      | some cell => .error (.generation (.moduleFrozen cell.module.exportName .move)) h
      | none => .ok () h := by
  induction cells with
  | nil => rfl
  | cons first rest ih =>
    rw [List.forM_cons, EStateM.run_bind, checkMovable]
    by_cases hfrozen : first.isFrozen = true
    · rw [if_pos hfrozen, run_raise, List.find?_cons_of_pos hfrozen]
    · rw [if_neg hfrozen, EStateM.run_pure, List.find?_cons_of_neg hfrozen]
      exact ih

/-- One write after the other is made. -/
theorem run_forM_write (ids : List Nat) (f : Cell → Cell) (h : Heap) :
    (forM ids fun id => write id f).run h = .ok () (h.writtenAll ids f) := by
  induction ids generalizing h with
  | nil => rfl
  | cons first rest ih =>
    rw [List.forM_cons, EStateM.run_bind, run_write]
    exact ih (h.written first f)

end Heap

/-- A call as an operation on cells.  Files are given by flattening alone. -/
def OutputStore.Call.operation : Call → Operation (List File)
  | .construct description => do
    Heap.construct description
    pure []
  | .push parent child => do
    Heap.push parent child
    pure []
  | .moveUnder id segments => do
    Heap.moveUnder id segments
    pure []
  | .flatten id renderer? => Heap.flatten id renderer?

namespace OutputStore

variable {s : OutputStore}

/-- What a call gives, with the store after it. -/
def reply (s : OutputStore) : Call → Except Failure (List File × OutputStore)
  | .flatten id renderer? => s.flatten id renderer?
  | call => (s.perform call).map fun next => ([], next)

/-- An outcome on a store as one on its cells: they are those of the store that comes after a success,
and the same as before after a failure. -/
def onCells (s : OutputStore) {α : Type} :
    Except Failure (α × OutputStore) → EStateM.Result Failure Heap α
  | .ok (a, next) => .ok a next.heap
  | .error e => .error e s.heap

/-- What is done for its effect gives no files. -/
theorem run_bind_pure_nil {operation : Operation Unit} {outcome : Except Failure OutputStore}
    (h : operation.run s.heap = s.onCells (outcome.map fun next => ((), next))) :
    (operation >>= fun _ => pure ([] : List File)).run s.heap =
      s.onCells (outcome.map fun next => ([], next)) := by
  rw [EStateM.run_bind, h]
  cases outcome <;> rfl

theorem perform_eq_map_reply (s : OutputStore) (call : Call) :
    s.perform call = (s.reply call).map Prod.snd := by
  cases call with
  | flatten id renderer? => rfl
  | construct description =>
    show _ = ((s.perform (.construct description)).map _).map _
    cases s.perform (.construct description) <;> rfl
  | push parent child =>
    show _ = ((s.perform (.push parent child)).map _).map _
    cases s.perform (.push parent child) <;> rfl
  | moveUnder id segments =>
    show _ = ((s.perform (.moveUnder id segments)).map _).map _
    cases s.perform (.moveUnder id segments) <;> rfl

namespace WellFormed

theorem run_construct (h : s.WellFormed) (description : OutputModule.Description) :
    (Heap.construct description).run s.heap =
      s.onCells ((s.perform (.construct description)).map fun next => ((), next)) := by
  rw [Heap.construct, perform]
  cases OutputModule.ofDescription description with
  | error e => rfl
  | ok m =>
    show EStateM.Result.ok () (s.heap.allocated m) = .ok () (s.add m).1.heap
    rw [h.heap_add m]

/-- The name of an owner is found in its cell. -/
theorem exportName_heap (h : s.WellFormed) {child : Nat} {owner : StoredModule}
    (howner : s.parent? child = some owner) :
    s.heap.exportName owner.id = owner.module.exportName := by
  obtain ⟨t, ht, rfl⟩ := Option.map_eq_some_iff.mp howner
  rw [Heap.exportName, h.cell?_heap_of_mem (List.mem_of_find?_eq_some ht)]
  rfl

theorem run_checkPush (h : s.WellFormed) {parent child : Nat} {p c : Tree StoredModule}
    (hp : s.find? parent = some p) (hc : s.find? child = some c) :
    (Heap.checkPush s.heap parent child (s.cellOf p.value) (s.cellOf c.value)).run s.heap =
      match s.push parent child with
      | .ok _ => .ok () s.heap
      | .error e => .error (.generation e) s.heap := by
  have hparent : (s.cellOf c.value).parent? = (s.parent? child).map StoredModule.id := by
    rw [← (h.find?_eq_some_iff.mp hc).2]
    rfl
  rw [OutputStore.push, hp, hc, Heap.checkPush, hparent, h.climbs_heap hp hc]
  dsimp only
  by_cases hpFrozen : p.value.isFrozen = true
  · have hcell : (s.cellOf p.value).isFrozen = true := hpFrozen
    rw [if_pos hcell, if_pos hpFrozen]
    rfl
  have hpCell : ¬(s.cellOf p.value).isFrozen = true := hpFrozen
  rw [if_neg hpCell, if_neg hpFrozen]
  by_cases hcFrozen : c.value.isFrozen = true
  · have hcell : (s.cellOf c.value).isFrozen = true := hcFrozen
    rw [if_pos hcell, if_pos hcFrozen]
    rfl
  have hcCell : ¬(s.cellOf c.value).isFrozen = true := hcFrozen
  rw [if_neg hcCell, if_neg hcFrozen]
  cases howner : s.parent? child with
  | some owner =>
    dsimp only [Option.map_some]
    rw [h.exportName_heap howner]
    rfl
  | none =>
    dsimp only [Option.map_none]
    split <;> rfl

theorem run_push (h : s.WellFormed) (parent child : Nat) :
    (Heap.push parent child).run s.heap =
      s.onCells ((s.perform (.push parent child)).map fun next => ((), next)) := by
  rw [Heap.push, perform, EStateM.run_bind, EStateM.run_get]
  dsimp only
  cases hp : s.find? parent with
  | none =>
    rw [cell?_heap, hp, OutputStore.push, hp]
    rfl
  | some p =>
    cases hc : s.find? child with
    | none =>
      rw [cell?_heap, hp, cell?_heap, hc, OutputStore.push, hp, hc]
      rfl
    | some c =>
      rw [cell?_heap, hp, cell?_heap, hc]
      dsimp only [Option.map_some]
      rw [EStateM.run_bind, h.run_checkPush hp hc]
      cases hpush : s.push parent child with
      | error e => rfl
      | ok next =>
        show EStateM.Result.ok () _ = .ok () next.heap
        rw [h.heap_push hp hc hpush]

/-- The values of a tree, as they are read off the cells. -/
theorem map_cellOf_toList (s : OutputStore) (t : Tree StoredModule) :
    (t.map fun m => (m.id, s.cellOf m)).toList.map Prod.snd = t.toList.map s.cellOf := by
  rw [Tree.toList_map, List.map_map]
  rfl

theorem run_moveUnder (h : s.WellFormed) (id : Nat) (segments : List String) :
    (Heap.moveUnder id segments).run s.heap =
      s.onCells ((s.perform (.moveUnder id segments)).map fun next => ((), next)) := by
  rw [Heap.moveUnder, perform, EStateM.run_bind, EStateM.run_get]
  dsimp only
  rw [h.tree?_heap, OutputStore.moveUnder]
  cases ht : s.find? id with
  | none => rfl
  | some t =>
    dsimp only [Option.map_some]
    rw [EStateM.run_bind, map_cellOf_toList, Heap.run_forM_checkMovable, List.find?_map]
    have hflags : (Cell.isFrozen ∘ s.cellOf) = StoredModule.isFrozen := rfl
    rw [hflags]
    cases hfrozen : t.toList.find? StoredModule.isFrozen with
    | some frozen => rfl
    | none =>
      have hfree : ∀ m ∈ t.toList, m.isFrozen = false := by
        intro m hm
        simpa using List.find?_eq_none.mp hfrozen m hm
      have hmove : s.moveUnder id segments = .ok (s.update id (moveTree segments)) :=
        moveUnder_of_free ht hfree
      show EStateM.Result.ok () _ = .ok () (s.update id (moveTree segments)).heap
      rw [h.heap_moveUnder ht hmove]

theorem run_flatten (h : s.WellFormed) (id : Nat) (renderer? : Option IndexRenderer) :
    (Heap.flatten id renderer?).run s.heap = s.onCells (s.flatten id renderer?) := by
  rw [Heap.flatten, EStateM.run_bind, EStateM.run_get]
  dsimp only
  rw [h.tree?_heap]
  cases ht : s.find? id with
  | none =>
    rw [OutputStore.flatten, ht]
    rfl
  | some t =>
    -- the tree in the cells has the root, the modules and the identities of the stored one
    have hroot : (t.map fun m => (m.id, s.cellOf m)).value = (t.value.id, s.cellOf t.value) := by
      cases t
      rfl
    have hmodules : (t.map fun m => (m.id, s.cellOf m)).map (fun m => m.2.module) =
        t.map StoredModule.module := by
      rw [Tree.map_map]
      rfl
    have hids : (t.map fun m => (m.id, s.cellOf m)).toList.map Prod.fst =
        t.toList.map StoredModule.id := by
      rw [Tree.toList_map, List.map_map]
      rfl
    dsimp only [Option.map_some]
    rw [hroot, hmodules, hids]
    -- both forms look first at what the root has kept, which is given again to the same renderer
    -- only
    cases hkept : t.value.flattened? with
    | some kept =>
      have hfiles : (s.cellOf t.value).files? = some kept.files := by
        rw [cellOf, hkept]
        rfl
      have hrenderer : (s.cellOf t.value).renderer? = kept.renderer? := by
        rw [cellOf, hkept]
        rfl
      rw [hfiles, hrenderer, OutputStore.flatten, ht]
      dsimp only
      rw [hkept]
      dsimp only
      split <;> rfl
    | none =>
      have hfiles : (s.cellOf t.value).files? = none := by
        rw [cellOf, hkept]
        rfl
      rw [hfiles]
      dsimp only
      rw [EStateM.run_bind, Heap.run_ofExcept]
      cases hrun : OutputTree.flatten (t.map StoredModule.module) renderer? with
      | error e =>
        rw [OutputStore.flatten, ht]
        dsimp only
        rw [hkept, hrun]
        rfl
      | ok files =>
        have hflat : s.flatten id renderer? =
            .ok (files, s.update id (freeze ⟨files, renderer?⟩)) := by
          rw [OutputStore.flatten, ht]
          dsimp only
          rw [hkept, hrun]
          rfl
        rw [hflat, onCells, h.heap_freeze ht hflat]
        dsimp only
        rw [EStateM.run_bind, Heap.run_forM_write]
        rfl

/-- On the cells of a store an operation answers as the store does.  It leaves the cells of the store
that comes after a success, and all cells as they were after a failure. -/
theorem run_operation (h : s.WellFormed) (call : Call) :
    call.operation.run s.heap = s.onCells (s.reply call) := by
  cases call with
  | construct description => exact run_bind_pure_nil (h.run_construct description)
  | push parent child => exact run_bind_pure_nil (h.run_push parent child)
  | moveUnder id segments => exact run_bind_pure_nil (h.run_moveUnder id segments)
  | flatten id renderer? => exact h.run_flatten id renderer?

/-- An operation fails where the store does, and changes no cell. -/
theorem reply_of_run_operation (h : s.WellFormed) {call : Call} {failure : Failure} {heap : Heap}
    (hfail : call.operation.run s.heap = .error failure heap) :
    s.reply call = .error failure ∧ heap = s.heap := by
  rw [h.run_operation] at hfail
  cases hreply : s.reply call with
  | ok result =>
    rw [hreply] at hfail
    cases hfail
  | error e =>
    rw [hreply] at hfail
    cases hfail
    exact ⟨rfl, rfl⟩

end WellFormed

/-! ## Runs -/

end OutputStore

/-- What calls answer on cells, one after the other whatever becomes of each, and the cells that are
there in the end. -/
def Heap.replay (h : Heap) : List Call → List (Except Failure (List File)) × Heap
  | [] => ([], h)
  | call :: rest =>
    match call.operation.run h with
    | .ok files next => (.ok files :: (next.replay rest).1, (next.replay rest).2)
    | .error e next => (.error e :: (next.replay rest).1, (next.replay rest).2)

theorem Heap.replay_append (h : Heap) (calls later : List Call) :
    h.replay (calls ++ later) =
      ((h.replay calls).1 ++ ((h.replay calls).2.replay later).1,
        ((h.replay calls).2.replay later).2) := by
  induction calls generalizing h with
  | nil => rfl
  | cons call rest ih =>
    rw [List.cons_append, replay, replay]
    cases call.operation.run h with
    | ok files next =>
      dsimp only
      rw [ih next]
      rfl
    | error e next =>
      dsimp only
      rw [ih next]
      rfl

theorem Heap.length_replay (h : Heap) (calls : List Call) :
    (h.replay calls).1.length = calls.length := by
  induction calls generalizing h with
  | nil => rfl
  | cons call rest ih =>
    rw [replay]
    cases call.operation.run h <;> exact congrArg Nat.succ (ih _)

namespace OutputStore

/-- What a store answers to calls, one after the other. -/
def answers (s : OutputStore) : List Call → List (Except Failure (List File))
  | [] => []
  | call :: rest => (s.reply call).map Prod.fst :: (s.after call).answers rest

/-- Calls on the cells of a store answer as the store does, and leave the cells of the store that
they build. -/
theorem WellFormed.replay_heap {s : OutputStore} (h : s.WellFormed) (calls : List Call) :
    s.heap.replay calls = (s.answers calls, (s.afterAll calls).heap) := by
  induction calls generalizing s with
  | nil => rfl
  | cons call rest ih =>
    have hafter : s.after call =
        match s.reply call with
        | .ok result => result.2
        | .error _ => s := by
      rw [OutputStore.after, perform_eq_map_reply]
      cases s.reply call <;> rfl
    have hrest := ih (h.after call)
    rw [Heap.replay, h.run_operation, answers]
    show _ = (_, ((s.after call).afterAll rest).heap)
    -- a refused call leaves the cells alone, as it does the store
    cases hreply : s.reply call with
    | ok result =>
      rw [hreply] at hafter
      dsimp only [onCells] at hafter ⊢
      rw [← hafter, hrest]
      rfl
    | error e =>
      rw [hreply] at hafter
      dsimp only [onCells] at hafter ⊢
      rw [hafter] at hrest ⊢
      rw [hrest]
      rfl

/-- Nothing is written down before the first module is there. -/
theorem heap_empty : ({} : OutputStore).heap = {} := rfl

/-- Every run of calls on cells answers as the run on the store and leaves the cells of the store.  In
particular a call that fails leaves all cells as they were: the same calls without it give the same
cells and the same answers but for its own. -/
theorem replay_run :
    (∀ calls : List Call, Heap.replay {} calls = (answers {} calls, (run calls).heap)) ∧
      ∀ (calls : List Call) (call : Call) (failure : Failure) (heap : Heap),
        call.operation.run (Heap.replay {} calls).2 = .error failure heap →
        heap = (Heap.replay {} calls).2 ∧ (run calls).perform call = .error failure ∧
          ∀ later : List Call,
            let without := Heap.replay {} (calls ++ later)
            let withCall := Heap.replay {} (calls ++ call :: later)
            withCall.2 = without.2 ∧ withCall.1[calls.length]? = some (.error failure) ∧
              withCall.1.eraseIdx calls.length = without.1 := by
  have hreplay : ∀ calls : List Call, Heap.replay {} calls = (answers {} calls, (run calls).heap) := by
    intro calls
    rw [← heap_empty]
    exact WellFormed.empty.replay_heap calls
  refine ⟨hreplay, fun calls call failure heap hfail => ?_⟩
  have hcells : (Heap.replay {} calls).2 = (run calls).heap := by rw [hreplay]
  rw [hcells] at hfail
  obtain ⟨hreply, rfl⟩ := (wellFormed_run calls).reply_of_run_operation hfail
  refine ⟨hcells.symm, ?_, fun later => ?_⟩
  · rw [perform_eq_map_reply, hreply]
    rfl
  · rw [Heap.replay_append, Heap.replay_append, Heap.replay, hcells, hfail]
    dsimp only
    have hlength : (Heap.replay {} calls).1.length = calls.length := Heap.length_replay {} calls
    refine ⟨rfl, ?_, ?_⟩
    · rw [List.getElem?_append_right (by omega), hlength, Nat.sub_self, List.getElem?_cons_zero]
    · rw [List.eraseIdx_append_of_length_le (by omega), hlength, Nat.sub_self,
        List.eraseIdx_cons_zero]

/-- An index over two spellings of one path fails to be flattened at its last file, and is moved
afterwards as if nobody had tried. -/
theorem replay_run_respelled :
    ∃ heap, (Call.flatten 0 none).operation.run (Heap.replay {} respelled).2 =
        .error (.generation (.pathCollision "a/b.ts" ["A", "B"])) heap ∧
      heap = (Heap.replay {} respelled).2 ∧
      (Heap.replay {} (respelled ++ .flatten 0 none :: [.moveUnder 0 ["d"]])).2 =
        (Heap.replay {} (respelled ++ [.moveUnder 0 ["d"]])).2 := by
  have hcheck : (match (run respelled).reply (.flatten 0 none) with
      | .error (.generation (.pathCollision path modules)) =>
        decide (path = "a/b.ts" ∧ modules = ["A", "B"])
      | _ => false) = true := by
    decide +kernel
  have hfail : (Call.flatten 0 none).operation.run (Heap.replay {} respelled).2 =
      .error (.generation (.pathCollision "a/b.ts" ["A", "B"])) (run respelled).heap := by
    rw [replay_run.1, (wellFormed_run respelled).run_operation]
    split at hcheck
    · next path modules hreply =>
      obtain ⟨rfl, rfl⟩ := of_decide_eq_true hcheck
      rw [hreply, onCells]
    · cases hcheck
  obtain ⟨hsame, -, hlater⟩ := replay_run.2 respelled (.flatten 0 none) _ _ hfail
  exact ⟨_, hfail, hsame, (hlater [.moveUnder 0 ["d"]]).1⟩

end OutputStore
end SchemaTypings
