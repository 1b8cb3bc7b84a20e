/-
  SchemaTypings.Proofs.Store.Cells

  Ownership, freezing and kept files as they are written down in cells.  On cells the parent of a
  module and the children of a module are parts of their own, written one after the other, so that
  they could come apart; and the frozen flags and the files are written cell by cell.  After every
  run of operations they agree all the same.
-/
import SchemaTypings.Proofs.Store.Replay

namespace SchemaTypings

open OutputStore (Call)

namespace Heap

/-! ## What cells say -/

/-- The parent that is written down for a module. -/
def parent? (h : Heap) (id : Nat) : Option Nat := (h.cell? id).bind Cell.parent?

/-- The children that are written down for a module. -/
def children (h : Heap) (id : Nat) : List Nat := ((h.cell? id).map Cell.children).getD []

/-- Whether a module is marked as frozen. -/
def isFrozen (h : Heap) (id : Nat) : Bool := ((h.cell? id).map Cell.isFrozen).getD false

/-- Whether the parents that are written down lead from a module up to another. -/
def IsBelow (h : Heap) : Nat → Nat → Prop :=
  Relation.TransGen fun lower upper => h.parent? lower = some upper

/-- Parents and children say the same, no module is a child twice, and no way up comes back. -/
structure IsForest (h : Heap) : Prop where
  mem_children_iff : ∀ lower upper, lower ∈ h.children upper ↔ h.parent? lower = some upper
  nodup_children : ∀ id, (h.children id).Nodup
  not_isBelow_self : ∀ id, ¬h.IsBelow id id

/-- A module is marked as frozen, and so is all that stands below it. -/
def IsFrozenThrough (h : Heap) (id : Nat) : Prop :=
  h.isFrozen id = true ∧ ∀ lower, h.IsBelow lower id → h.isFrozen lower = true

/-- A module with all that is reached through children is flattened to the given files. -/
def GivesAfresh (h : Heap) (id : Nat) (renderer? : Option IndexRenderer) (files : List File) : Prop :=
  ∃ t, h.tree? h.next id = some t ∧ OutputTree.flatten (t.map fun m => m.2.module) renderer? = .ok files

end Heap

/-! ## The cells of a store say what the store says -/

namespace OutputStore

variable {s : OutputStore}

theorem isFrozen_heap (s : OutputStore) (id : Nat) : s.heap.isFrozen id = s.isFrozen id := by
  rw [Heap.isFrozen, cell?_heap, Option.map_map]
  rfl

namespace WellFormed

/-- The cell of a module is written from what the store has under its number. -/
theorem cell?_heap_eq_some (h : s.WellFormed) {id : Nat} {cell : Cell}
    (hcell : s.heap.cell? id = some cell) :
    ∃ t, s.find? id = some t ∧ t.value.id = id ∧ cell = s.cellOf t.value := by
  obtain ⟨t, ht, rfl⟩ := Option.map_eq_some_iff.mp hcell
  exact ⟨t, ht, (h.find?_eq_some_iff.mp ht).2, rfl⟩

theorem parent?_heap (h : s.WellFormed) (id : Nat) : s.heap.parent? id = s.parentId? id := by
  rw [Heap.parent?]
  cases hcell : s.heap.cell? id with
  | some cell =>
    obtain ⟨t, -, hid, rfl⟩ := h.cell?_heap_eq_some hcell
    rw [Option.bind_some, cellOf, hid]
  | none =>
    -- What has no cell is not in the store, so nothing is above it.
    have hnone : s.find? id = none := Option.map_eq_none_iff.mp hcell
    cases hparent : s.parentId? id with
    | none => rfl
    | some upper =>
      obtain ⟨-, c, -, hc, -⟩ := h.parentId?_eq_some_iff.mp hparent
      rw [hnone] at hc
      cases hc

theorem children_heap (h : s.WellFormed) (id : Nat) : s.heap.children id = s.childIds id := by
  rw [Heap.children]
  cases hcell : s.heap.cell? id with
  | some cell =>
    obtain ⟨t, -, hid, rfl⟩ := h.cell?_heap_eq_some hcell
    rw [Option.map_some, Option.getD_some, cellOf, hid]
  | none =>
    have hnone : s.find? id = none := Option.map_eq_none_iff.mp hcell
    rw [childIds, hnone]
    rfl

theorem isBelow_heap (h : s.WellFormed) : s.heap.IsBelow = s.IsBelow := by
  have hparents : s.heap.parent? = s.parentId? := funext h.parent?_heap
  rw [Heap.IsBelow, hparents]
  rfl

/-! ## Forest, freezing, files -/

theorem isForest_heap (h : s.WellFormed) : s.heap.IsForest where
  mem_children_iff lower upper := by
    rw [h.children_heap, h.parent?_heap]
    exact h.mem_childIds_iff lower upper
  nodup_children id := by
    rw [h.children_heap]
    exact h.nodup_childIds id
  not_isBelow_self id := by
    rw [h.isBelow_heap]
    exact h.not_isBelow_self id

theorem isFrozenThrough_heap (h : s.WellFormed) {id : Nat} (hfrozen : s.heap.isFrozen id = true) :
    s.heap.IsFrozenThrough id := by
  refine ⟨hfrozen, fun lower hbelow => ?_⟩
  rw [h.isBelow_heap] at hbelow
  rw [isFrozen_heap] at hfrozen ⊢
  exact h.isFrozen_of_isBelow hfrozen hbelow

/-- The files and the renderer of a cell are those that the store keeps. -/
theorem exists_kept?_of_cell (h : s.WellFormed) {id : Nat} {cell : Cell} {files : List File}
    (hcell : s.heap.cell? id = some cell) (hfiles : cell.files? = some files) :
    ∃ kept, s.kept? id = some kept ∧ kept.files = files ∧ kept.renderer? = cell.renderer? := by
  obtain ⟨t, ht, -, rfl⟩ := h.cell?_heap_eq_some hcell
  obtain ⟨kept, hkept, rfl⟩ := Option.map_eq_some_iff.mp hfiles
  refine ⟨kept, ?_, rfl, ?_⟩
  · rw [kept?, ht, Option.bind_some, hkept]
  · rw [cellOf, hkept, Option.bind_some]

theorem givesAfresh_heap (h : s.WellFormed) {id : Nat} {kept : Flattened}
    (hkept : s.kept? id = some kept) : s.heap.GivesAfresh id kept.renderer? kept.files := by
  obtain ⟨-, fresh, hfresh, hfiles⟩ := h.flatten_of_kept? hkept
  obtain ⟨t, ht, rfl⟩ := Option.map_eq_some_iff.mp hfresh
  refine ⟨t.map fun m => (m.id, s.cellOf m), ?_, ?_⟩
  · rw [h.tree?_heap, ht]
    rfl
  · rw [Tree.map_map]
    exact hfiles

/-- Flattening on cells gives the files that the store keeps. -/
theorem files_eq_of_run_flatten (h : s.WellFormed) {id : Nat} {kept : Flattened}
    (hkept : s.kept? id = some kept) {renderer? : Option IndexRenderer} {files : List File}
    {heap : Heap} (hflat : (Heap.flatten id renderer?).run s.heap = .ok files heap) :
    files = kept.files := by
  -- The operation on cells answers what the store answers, whose files are the kept ones.
  have hrun := h.run_operation (.flatten id renderer?)
  rw [Call.operation, hflat, reply] at hrun
  cases hstore : s.flatten id renderer? with
  | error e =>
    rw [hstore] at hrun
    cases hrun
  | ok result =>
    rw [hstore] at hrun
    cases hrun
    exact files_eq_of_kept? hkept hstore

end WellFormed

theorem heap_run (calls : List Call) : (Heap.replay {} calls).2 = (run calls).heap := by
  rw [← heap_empty, WellFormed.empty.replay_heap]
  rfl

end OutputStore

/-! ## Every run -/

/-- After any operations on cells, successful or not, the parents and children that are written down
form a forest, a module that is marked as frozen is marked all the way down, and the files in a cell
are those that its module would be flattened to afresh with the renderer in the cell, and those that
every later flattening gives. -/
theorem Heap.replay_sound (calls : List Call) :
    (replay {} calls).2.IsForest ∧
      (∀ id, (replay {} calls).2.isFrozen id = true → (replay {} calls).2.IsFrozenThrough id) ∧
      ∀ id cell files, (replay {} calls).2.cell? id = some cell → cell.files? = some files →
        (replay {} calls).2.IsFrozenThrough id ∧
          (replay {} calls).2.GivesAfresh id cell.renderer? files ∧
          ∀ later renderer? again next,
            (flatten id renderer?).run (replay {} (calls ++ later)).2 = .ok again next →
            again = files := by
  have h := OutputStore.wellFormed_run calls
  rw [OutputStore.heap_run]
  refine ⟨h.isForest_heap, fun id => h.isFrozenThrough_heap, ?_⟩
  intro id cell files hcell hfiles
  obtain ⟨kept, hkept, rfl, hrenderer⟩ := h.exists_kept?_of_cell hcell hfiles
  refine ⟨?_, ?_, ?_⟩
  · apply h.isFrozenThrough_heap
    rw [OutputStore.isFrozen_heap]
    exact (h.flatten_of_kept? hkept).1
  · rw [← hrenderer]
    exact h.givesAfresh_heap hkept
  · intro later renderer? again next hflat
    -- What the store keeps now it still keeps after the later calls.
    have hlater := h.kept?_afterAll later hkept
    rw [← OutputStore.run_append] at hlater
    rw [OutputStore.heap_run] at hflat
    exact (OutputStore.wellFormed_run (calls ++ later)).files_eq_of_run_flatten hlater hflat

end SchemaTypings
