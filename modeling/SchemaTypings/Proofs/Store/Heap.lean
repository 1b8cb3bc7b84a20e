/-
  SchemaTypings.Proofs.Store.Heap

  The modules of a store as cells that are written one part at a time.

  A cell holds what is known of one module: its own data with the directories in front of its path,
  its parent, its children in order, the frozen flag, the kept files and the recorded renderer.  The
  operations on modules are given here once more as they go about it: each reads cells, checks, and
  writes single parts of single cells.  When one of them fails, whatever it has written up to there
  stays written.  A tree of modules is read off by following the children down, an ancestor by
  following the parents up.
-/
import SchemaTypings.Proofs.Store.History
import Mathlib.Logic.Function.Basic

namespace SchemaTypings

/-- What is written down of one module. -/
structure Cell where
  module : OutputModule
  parent? : Option Nat := none
  children : List Nat := []
  isFrozen : Bool := false
  files? : Option (List File) := none
  /-- The renderer that was given when the files were produced. -/
  renderer? : Option IndexRenderer := none

/-- The cells of all modules, under their numbers. -/
@[ext] structure Heap where
  cell? : Nat → Option Cell := fun _ => none
  /-- The least number that no module has. -/
  next : Nat := 0

/-- An operation on cells.  A failure takes nothing back. -/
abbrev Operation := EStateM Failure Heap

namespace Heap

/-! ## Reading -/

/-- A module with all below it, no further down than there is fuel. -/
def tree? (h : Heap) : Nat → Nat → Option (Tree (Nat × Cell))
  | 0, _ => none
  | fuel + 1, id =>
    (h.cell? id).map fun cell => .node (id, cell) (cell.children.filterMap (h.tree? fuel))

/-- Whether the way up from a module leads to another, no further up than there is fuel. -/
def climbs (h : Heap) (target : Nat) : Nat → Nat → Bool
  | 0, _ => false
  | fuel + 1, id =>
    if id = target then true
    else
      match (h.cell? id).bind Cell.parent? with
      | none => false
      | some parent => h.climbs target fuel parent

/-- The exported name of a module. -/
def exportName (h : Heap) (id : Nat) : String :=
  ((h.cell? id).map fun cell => cell.module.exportName).getD ""

/-! ## Writing -/

/-- The cells with one of them changed. -/
def written (h : Heap) (id : Nat) (f : Cell → Cell) : Heap :=
  { h with cell? := Function.update h.cell? id ((h.cell? id).map f) }

theorem cell?_written_self (h : Heap) (id : Nat) (f : Cell → Cell) :
    (h.written id f).cell? id = (h.cell? id).map f := Function.update_self ..

theorem cell?_written_of_ne {id other : Nat} (hne : other ≠ id) (h : Heap) (f : Cell → Cell) :
    (h.written id f).cell? other = h.cell? other := Function.update_of_ne hne ..

/-- The cells with some of them changed, one after the other. -/
def writtenAll (h : Heap) (ids : List Nat) (f : Cell → Cell) : Heap :=
  ids.foldl (fun h id => h.written id f) h

/-- A change that makes no difference a second time is made to each of the cells. -/
theorem cell?_writtenAll {f : Cell → Cell} (hf : ∀ cell, f (f cell) = f cell) (ids : List Nat)
    (h : Heap) (id : Nat) :
    (h.writtenAll ids f).cell? id = if id ∈ ids then (h.cell? id).map f else h.cell? id := by
  induction ids generalizing h with
  | nil => rfl
  | cons first rest ih =>
    show ((h.written first f).writtenAll rest f).cell? id = _
    rw [ih]
    by_cases hid : id = first
    · subst hid
      have htwice : f ∘ f = f := funext hf
      rw [cell?_written_self, Option.map_map, htwice, ite_self, if_pos List.mem_cons_self]
    · rw [cell?_written_of_ne hid]
      simp only [List.mem_cons, hid, false_or]

theorem next_writtenAll (h : Heap) (ids : List Nat) (f : Cell → Cell) :
    (h.writtenAll ids f).next = h.next := by
  induction ids generalizing h with
  | nil => rfl
  | cons first rest ih => exact ih (h.written first f)

/-- The cells with one more module. -/
def allocated (h : Heap) (m : OutputModule) : Heap :=
  ⟨Function.update h.cell? h.next (some { module := m }), h.next + 1⟩

/-- Changes one cell. -/
def write (id : Nat) (f : Cell → Cell) : Operation Unit := modify (written · id f)

/-- A failure that is named. -/
def raise {α : Type} (e : GenerationError) : Operation α := throw (.generation e)

/-! ## Operations -/

/-- A module is checked before it is there. -/
def construct (description : OutputModule.Description) : Operation Unit :=
  match OutputModule.ofDescription description with
  | .error e => raise e
  | .ok m => modify (allocated · m)

/-- Refuses a push of a module into another where one of them is frozen, the child has a parent, or
the way up from the parent leads to the child. -/
def checkPush (h : Heap) (parent child : Nat) (p c : Cell) : Operation Unit :=
  if p.isFrozen then raise (.moduleFrozen p.module.exportName .push)
  else if c.isFrozen then raise (.moduleFrozen c.module.exportName .attach)
  else
    match c.parent? with
    | some owner => raise (.moduleMisuse (.alreadyOwned c.module.exportName (h.exportName owner)))
    | none =>
      if h.climbs child h.next parent then
        raise (.moduleMisuse (.cycle c.module.exportName p.module.exportName))
      else pure ()

/-- The child is given its parent, then the parent its child. -/
def push (parent child : Nat) : Operation Unit := do
  let h ← get
  match h.cell? parent, h.cell? child with
  | some p, some c =>
    checkPush h parent child p c
    write child fun cell => { cell with parent? := some parent }
    write parent fun cell => { cell with children := cell.children ++ [child] }
  | _, _ => pure ()

/-- Refuses a module that is frozen. -/
def checkMovable (cell : Cell) : Operation Unit :=
  if cell.isFrozen then raise (.moduleFrozen cell.module.exportName .move) else pure ()

/-- The module and all below it are looked at one after the other, then directories are put in front
of the module. -/
def moveUnder (id : Nat) (segments : List String) : Operation Unit := do
  let h ← get
  match h.tree? h.next id with
  | none => pure ()
  | some t =>
    forM (t.toList.map Prod.snd) checkMovable
    write id fun cell => { cell with module := cell.module.moveUnder segments }

/-- Paths are resolved and files produced, which only reads; then the module and all below it are
frozen one after the other, and the files and the renderer are kept. -/
def flatten (id : Nat) (renderer? : Option IndexRenderer) : Operation (List File) := do
  let h ← get
  match h.tree? h.next id with
  | none => pure []
  | some t =>
    match t.value.2.files? with
    | some files =>
      if OutputStore.isForeign renderer? t.value.2.renderer? then
        raise (.moduleFrozen t.value.2.module.exportName .render)
      pure files
    | none =>
      let files ← ofExcept (OutputTree.flatten (t.map fun m => m.2.module) renderer?)
      forM (t.toList.map Prod.fst) fun below =>
        write below fun cell => { cell with isFrozen := true }
      write id fun cell => { cell with files? := some files }
      write id fun cell => { cell with renderer? := renderer? }
      pure files

end Heap

/-! ## The cells of a store -/

namespace OutputStore

/-- What is written down of a module of a store. -/
def cellOf (s : OutputStore) (m : StoredModule) : Cell where
  module := m.module
  parent? := s.parentId? m.id
  children := s.childIds m.id
  isFrozen := m.isFrozen
  files? := m.flattened?.map Flattened.files
  renderer? := m.flattened?.bind Flattened.renderer?

/-- The cells of a store. -/
def heap (s : OutputStore) : Heap where
  cell? id := (s.find? id).map fun t => s.cellOf t.value
  next := s.next

variable {s : OutputStore}

theorem cell?_heap (s : OutputStore) (id : Nat) :
    s.heap.cell? id = (s.find? id).map fun t => s.cellOf t.value := rfl

namespace WellFormed

theorem length_toListAll (h : s.WellFormed) : (Tree.toListAll s.trees).length = s.next := by
  have hlength := h.ids_perm.length_eq
  rwa [ids, List.length_map, List.length_range] at hlength

theorem length_le_next (h : s.WellFormed) {t : Tree StoredModule}
    (ht : t ∈ Tree.subtreesAll s.trees) : t.toList.length ≤ s.next := by
  rw [← h.length_toListAll]
  exact Tree.length_subtreeAll_le _ t ht

theorem find?_of_mem (h : s.WellFormed) {t : Tree StoredModule}
    (ht : t ∈ Tree.subtreesAll s.trees) : s.find? t.value.id = some t :=
  h.find?_eq_some_iff.mpr ⟨ht, rfl⟩

/-- The numbers of the children of a tree in the store. -/
theorem childIds_of_mem (h : s.WellFormed) {t : Tree StoredModule}
    (ht : t ∈ Tree.subtreesAll s.trees) :
    s.childIds t.value.id = t.children.map fun c => c.value.id := by
  rw [childIds, h.find?_of_mem ht]
  rfl

theorem cell?_heap_of_mem (h : s.WellFormed) {t : Tree StoredModule}
    (ht : t ∈ Tree.subtreesAll s.trees) : s.heap.cell? t.value.id = some (s.cellOf t.value) := by
  rw [cell?_heap, h.find?_of_mem ht]
  rfl

/-- With fuel for every module below, the tree of a module is read off its cells. -/
theorem tree?_heap_of_mem (h : s.WellFormed) (fuel : Nat) {t : Tree StoredModule}
    (ht : t ∈ Tree.subtreesAll s.trees) (hfuel : t.toList.length ≤ fuel) :
    s.heap.tree? fuel t.value.id = some (t.map fun m => (m.id, s.cellOf m)) := by
  induction fuel generalizing t with
  | zero =>
    rw [Tree.toList_eq, List.length_cons] at hfuel
    omega
  | succ fuel ih =>
    have hchildren : (s.childIds t.value.id).filterMap (s.heap.tree? fuel) =
        Tree.mapAll (fun m => (m.id, s.cellOf m)) t.children := by
      rw [h.childIds_of_mem ht, Tree.mapAll_eq_map, List.filterMap_map, ← List.filterMap_eq_map']
      refine List.filterMap_congr fun c hc => ih (Tree.child_mem_subtreesAll ht hc) ?_
      have hle := Tree.length_subtreeAll_le t.children c (Tree.mem_subtreesAll_of_mem hc)
      rw [Tree.toList_eq, List.length_cons] at hfuel
      omega
    rw [Heap.tree?, h.cell?_heap_of_mem ht, Option.map_some, cellOf]
    dsimp only
    rw [hchildren]
    cases t
    rfl

theorem tree?_heap (h : s.WellFormed) (id : Nat) :
    s.heap.tree? s.heap.next id = (s.find? id).map (Tree.map fun m => (m.id, s.cellOf m)) := by
  cases ht : s.find? id with
  | some t =>
    obtain ⟨hmem, rfl⟩ := h.find?_eq_some_iff.mp ht
    exact h.tree?_heap_of_mem _ hmem (h.length_le_next hmem)
  | none =>
    change s.heap.tree? s.next id = none
    cases s.next with
    | zero => rfl
    | succ fuel => rw [Heap.tree?, cell?_heap, ht]; rfl

/-! ## The way up -/

/-- A module other than the root stands in a tree exactly if its parent does. -/
theorem mem_subtrees_iff_parent (h : s.WellFormed) {t u c : Tree StoredModule}
    (ht : t ∈ Tree.subtreesAll s.trees) (hc : c ∈ Tree.subtreesAll s.trees) (hu : u ∈ t.children)
    (hne : u.value.id ≠ c.value.id) : u ∈ c.subtrees ↔ t ∈ c.subtrees := by
  constructor
  · intro hmem
    rcases Tree.mem_subtrees_iff.mp hmem with rfl | hmem
    · exact absurd rfl hne
    · rcases Tree.mem_or_child_of_mem_subtreesAll hmem with hchild | ⟨w, hw, hchild⟩
      · rw [h.parent_unique ht hc hu hchild rfl]
        exact Tree.self_mem_subtrees c
      · have hwc : w ∈ c.subtrees := Tree.mem_subtrees_iff.mpr (.inr hw)
        rw [h.parent_unique ht (Tree.subtreesAll_trans _ c hc w hwc) hu hchild rfl]
        exact hwc
  · intro hmem
    have hbelow : u ∈ t.subtrees := Tree.mem_subtrees_iff.mpr (.inr (Tree.mem_subtreesAll_of_mem hu))
    exact Tree.subtrees_trans c t hmem u hbelow

/-- With fuel for every module above, the way up from a module leads to those in whose tree it
stands.  On the way up the trees get larger, and none is larger than the store. -/
theorem climbs_heap_of_mem (h : s.WellFormed) {c : Tree StoredModule}
    (hc : c ∈ Tree.subtreesAll s.trees) (fuel : Nat) {t : Tree StoredModule}
    (ht : t ∈ Tree.subtreesAll s.trees) (hfuel : s.next < fuel + t.toList.length) :
    s.heap.climbs c.value.id fuel t.value.id = true ↔ t ∈ c.subtrees := by
  induction fuel generalizing t with
  | zero =>
    have := h.length_le_next ht
    omega
  | succ fuel ih =>
    rw [Heap.climbs]
    by_cases hid : t.value.id = c.value.id
    · rw [if_pos hid, h.eq_of_id_eq ht hc hid]
      simp [Tree.self_mem_subtrees]
    · rw [if_neg hid, h.cell?_heap_of_mem ht, Option.bind_some, cellOf]
      dsimp only
      cases hparent : s.parentId? t.value.id with
      | none =>
        simp only [Bool.false_eq_true, false_iff]
        intro hmem
        -- Below the root of a tree everything has a parent.
        rcases Tree.mem_subtrees_iff.mp hmem with rfl | hmem
        · exact hid rfl
        · have hchild : ∃ u ∈ Tree.subtreesAll s.trees, t ∈ u.children := by
            rcases Tree.mem_or_child_of_mem_subtreesAll hmem with hchild | ⟨u, hu, hchild⟩
            · exact ⟨c, hc, hchild⟩
            · exact ⟨u, Tree.subtreesAll_trans _ c hc u (Tree.mem_subtrees_iff.mpr (.inr hu)), hchild⟩
          obtain ⟨u, hu, hchild⟩ := hchild
          have hsome := h.parentId?_eq_some_iff.mpr
            ⟨u, t, h.find?_of_mem hu, h.find?_of_mem ht, hchild⟩
          rw [hparent] at hsome
          cases hsome
      | some parent =>
        obtain ⟨u, t', hu, ht', hchild⟩ := h.parentId?_eq_some_iff.mp hparent
        rw [h.find?_of_mem ht] at ht'
        cases ht'
        obtain ⟨huMem, rfl⟩ := h.find?_eq_some_iff.mp hu
        have hsize := Tree.length_subtreeAll_le u.children t (Tree.mem_subtreesAll_of_mem hchild)
        have hlarger : t.toList.length < u.toList.length := by
          rw [Tree.toList_eq u, List.length_cons]
          omega
        dsimp only
        rw [ih huMem (by omega), h.mem_subtrees_iff_parent huMem hc hchild hid]

theorem climbs_heap (h : s.WellFormed) {parent child : Nat} {p c : Tree StoredModule}
    (hp : s.find? parent = some p) (hc : s.find? child = some c) :
    s.heap.climbs child s.heap.next parent = c.toList.any fun m => m.id = parent := by
  obtain ⟨hpMem, rfl⟩ := h.find?_eq_some_iff.mp hp
  obtain ⟨hcMem, rfl⟩ := h.find?_eq_some_iff.mp hc
  have hfuel : s.next < s.heap.next + p.toList.length := by
    rw [Tree.toList_eq p, List.length_cons]
    exact Nat.lt_add_of_pos_right (Nat.succ_pos _)
  rw [Bool.eq_iff_iff, h.climbs_heap_of_mem hcMem _ hpMem hfuel, List.any_eq_true]
  constructor
  · exact fun hmem => ⟨p.value, Tree.value_mem_toList hmem, decide_eq_true rfl⟩
  · rintro ⟨m, hm, hid⟩
    obtain ⟨u, hu, rfl⟩ := Tree.mem_toList_iff.mp hm
    rw [← h.eq_of_id_eq (Tree.subtreesAll_trans _ c hcMem u hu) hpMem (of_decide_eq_true hid)]
    exact hu

end WellFormed
end OutputStore
end SchemaTypings
