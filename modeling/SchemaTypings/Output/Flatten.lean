/-
  SchemaTypings.Output.Flatten

  From a tree of modules to its files.  Every path is resolved from the root of the tree; then the
  files are produced, parents first, and no two of them at one path.
-/
import SchemaTypings.Output.Module
import SchemaTypings.Output.Tree

namespace SchemaTypings

open Typescript (IndexView)

/-- A module with the modules below it. -/
abbrev OutputTree := Tree OutputModule

/-- A module with the path of its file from the output root. -/
structure PlacedModule where
  module : OutputModule
  path? : Option String

/-- A tree whose paths are resolved. -/
abbrev PlacedTree := Tree PlacedModule

/-- The tree of a module without any below it. -/
def OutputTree.leaf (m : OutputModule) : OutputTree := .node m []

/-- The tree moved under more directories. -/
def OutputTree.moveUnder (t : OutputTree) (segments : List String) : OutputTree :=
  t.withValue (t.value.moveUnder segments)

/-! ## Paths -/

mutual
/-- The tree with its paths resolved below the given directories. -/
def placeTree (base : List String) : OutputTree → Except GenerationError PlacedTree
  | .node m children =>
    let directories := base ++ m.directories
    match m.placed? directories with
    | .error e => .error e
    | .ok path? => (placeTrees directories children).map fun placed => .node ⟨m, path?⟩ placed

/-- The trees with their paths resolved below the given directories. -/
def placeTrees (base : List String) : List OutputTree → Except GenerationError (List PlacedTree)
  | [] => .ok []
  | t :: rest =>
    match placeTree base t with
    | .error e => .error e
    | .ok placed => (placeTrees base rest).map (placed :: ·)
end

/-! ## What is exported -/

mutual
/-- The paths that stand for a tree in an index: its root's, or those below a root without one. -/
def exportedPaths : PlacedTree → List String
  | .node m children =>
    match m.path? with
    | some path => [path]
    | none => exportedPathsAll children

/-- The paths that stand for trees in an index. -/
def exportedPathsAll : List PlacedTree → List String
  | [] => []
  | t :: rest => exportedPaths t ++ exportedPathsAll rest
end

mutual
/-- The names that reach an index through a tree, with the paths of the files that declare them.  A
content file exports nothing of what is below it. -/
def exportedNamesOf : PlacedTree → List (String × String)
  | .node m children =>
    (match m.path? with
      | some path => m.module.declaredNames.map fun name => (name, path)
      | none => []) ++
    (match m.module.kind with
      | .content => []
      | _ => exportedNamesAll children)

/-- The names that reach an index through trees. -/
def exportedNamesAll : List PlacedTree → List (String × String)
  | [] => []
  | t :: rest => exportedNamesOf t ++ exportedNamesAll rest
end

/-- Checks names against those that have owners, one after the other; each becomes owned. -/
def checkOwners : Entries String → List (String × String) → Except GenerationError Unit
  | _, [] => .ok ()
  | owners, (name, path) :: rest =>
    match owners.get? name with
    | some owner => .error (.nameCollision name [owner, path])
    | none => checkOwners (owners.insert name path) rest

/-- Checks that no name comes to an index twice, its own declarations included. -/
def checkNames (m : OutputModule) (path : String) (children : List PlacedTree) :
    Except GenerationError Unit :=
  checkOwners (Entries.insertAll [] (m.declaredNames.map fun name => (name, path)))
    (exportedNamesAll children)

/-! ## Files -/

/-- The keyed modules at the roots of the children, which an aggregate lists: key, exported name
and path of each. -/
def aggregated (owner : String) :
    Entries String → List PlacedTree → Except GenerationError (List (String × String × String))
  | _, [] => .ok []
  | seen, t :: rest =>
    match t.value.module.key? with
    | none => aggregated owner seen rest
    | some key =>
      let name := t.value.module.exportName
      match t.value.path? with
      | none => .error (.moduleMisuse (.aggregatedWithoutPath name owner))
      | some path =>
        match seen.get? key with
        | some other => .error (.nameCollision key [other, name])
        | none => (aggregated owner (seen.insert key name) rest).map ((key, name, path) :: ·)

/-- What an index needs to be written. -/
def indexView (m : OutputModule) (path : String) (children : List PlacedTree) :
    Except GenerationError IndexView := do
  checkNames m path children
  let members ← match m.aggregate? with
    | none => .ok []
    | some _ => aggregated m.exportName [] children
  return {
    path
    exportName := m.exportName
    content? := m.text?
    exports := (exportedPathsAll children).map (Path.specifierString path)
    imports := members.map fun (_, name, target) => ⟨name, Path.specifierString path target⟩
    aggregate? := m.aggregate?
    entries := members.map fun (key, name, _) => ⟨key, name⟩
    doc := m.doc }

/-- The text of a module's own file. -/
def fileText (fallback : IndexRenderer) (m : OutputModule) (path : String)
    (children : List PlacedTree) : Except Failure String :=
  match m.source with
  | .content _ text => .ok text
  | _ =>
    match indexView m path children with
    | .error e => .error (.generation e)
    | .ok view =>
      match (m.renderer?.getD fallback).render view with
      | .error f => .error (.fault f)
      | .ok text => .ok text

/-- The files of trees, of each the one at its root, when some paths already have owners. -/
def filesOf (fallback : IndexRenderer) :
    Entries String → List PlacedTree → Except Failure (List File)
  | _, [] => .ok []
  | owners, .node m children :: rest =>
    match m.path? with
    | none => filesOf fallback owners rest
    | some path =>
      match owners.get? path with
      | some owner => .error (.generation (.pathCollision path [owner, m.module.exportName]))
      | none =>
        match fileText fallback m.module path children with
        | .error e => .error e
        | .ok text =>
          (filesOf fallback (owners.insert path m.module.exportName) rest).map (⟨path, text⟩ :: ·)

/-- The renderer for modules that have none, when none is given either. -/
def defaultRenderer : IndexRenderer := Typescript.renderer .default

/-- The files of a tree; `fallback?` renders the indexes that have no renderer of their own. -/
def OutputTree.flatten (t : OutputTree) (fallback? : Option IndexRenderer := none) :
    Except Failure (List File) :=
  match placeTree [""] t with
  | .error e => .error (.generation e)
  | .ok placed => filesOf (fallback?.getD defaultRenderer) [] placed.subtrees

end SchemaTypings
