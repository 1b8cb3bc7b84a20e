/-
  SchemaTypings.Output.Store

  Modules under construction.  A store holds trees of modules; a module can be put under another,
  moved under directories, and flattened to files, after which it and all below it are frozen.
-/
import SchemaTypings.Output.Flatten

namespace SchemaTypings

/-- The files of a module that has been flattened, and the renderer that was given for it. -/
structure Flattened where
  files : List File
  renderer? : Option IndexRenderer

/-- A module in a store. -/
structure StoredModule where
  id : Nat
  module : OutputModule
  isFrozen : Bool := false
  flattened? : Option Flattened := none

/-- The trees of all modules, those without a parent at the roots. -/
structure OutputStore where
  trees : List (Tree StoredModule) := []
  /-- The least number that no module has. -/
  next : Nat := 0

namespace OutputStore

/-! ## Looking -/

/-- The tree of a module and all below it. -/
def find? (s : OutputStore) (id : Nat) : Option (Tree StoredModule) :=
  (Tree.subtreesAll s.trees).find? fun t => t.value.id = id

/-- The module that another stands directly under. -/
def parent? (s : OutputStore) (id : Nat) : Option StoredModule :=
  ((Tree.subtreesAll s.trees).find? fun t => t.children.any fun c => c.value.id = id).map Tree.value

/-! ## Building -/

/-- The store with one more module, and its number. -/
def add (s : OutputStore) (m : OutputModule) : OutputStore × Nat :=
  ({ trees := s.trees ++ [.node { id := s.next, module := m } []], next := s.next + 1 }, s.next)

/-- The store with the tree of a module changed. -/
def update (s : OutputStore) (id : Nat) (f : Tree StoredModule → Tree StoredModule) : OutputStore :=
  { s with trees := Tree.updateAll (fun m => m.id = id) f s.trees }

/-- The store with one module put under another, behind those that are there.  Neither may be
frozen; the child must be free and must not be above its new parent. -/
def push (s : OutputStore) (parent child : Nat) : Except GenerationError OutputStore :=
  match s.find? parent, s.find? child with
  | some p, some c =>
    let parentName := p.value.module.exportName
    let childName := c.value.module.exportName
    if p.value.isFrozen then .error (.moduleFrozen parentName .push)
    else if c.value.isFrozen then .error (.moduleFrozen childName .attach)
    else
      match s.parent? child with
      | some owner => .error (.moduleMisuse (.alreadyOwned childName owner.module.exportName))
      | none =>
        if c.toList.any fun m => m.id = parent then
          .error (.moduleMisuse (.cycle childName parentName))
        else
          let rest := s.trees.filter fun t => t.value.id ≠ child
          .ok (({ s with trees := rest } : OutputStore).update parent (·.push c))
  | _, _ => .ok s

/-- The store with directories put in front of a module and all below it, none of them frozen. -/
def moveUnder (s : OutputStore) (id : Nat) (segments : List String) :
    Except GenerationError OutputStore :=
  match s.find? id with
  | none => .ok s
  | some t =>
    match t.toList.find? StoredModule.isFrozen with
    | some frozen => .error (.moduleFrozen frozen.module.exportName .move)
    | none =>
      .ok (s.update id fun t =>
        t.withValue { t.value with module := t.value.module.moveUnder segments })

/-! ## Flattening -/

/-- The tree with every module frozen and the files kept at the root. -/
def freeze (flattened : Flattened) (t : Tree StoredModule) : Tree StoredModule :=
  let frozen := t.map fun m => { m with isFrozen := true }
  frozen.withValue { frozen.value with flattened? := some flattened }

/-- Whether a renderer is another than the one that a module was first flattened with. -/
def isForeign (given? recorded? : Option IndexRenderer) : Bool :=
  match given? with
  | none => false
  | some given => (recorded?.map IndexRenderer.tag) ≠ some given.tag

/-- The files of a module, and the store in which it is frozen.  A second time the kept files are
given again, and no other renderer is taken. -/
def flatten (s : OutputStore) (id : Nat) (renderer? : Option IndexRenderer) :
    Except Failure (List File × OutputStore) :=
  match s.find? id with
  | none => .ok ([], s)
  | some t =>
    match t.value.flattened? with
    | some kept =>
      if isForeign renderer? kept.renderer? then
        .error (.generation (.moduleFrozen t.value.module.exportName .render))
      else .ok (kept.files, s)
    | none =>
      (OutputTree.flatten (t.map StoredModule.module) renderer?).map fun files =>
        (files, s.update id (freeze ⟨files, renderer?⟩))

end OutputStore
end SchemaTypings
