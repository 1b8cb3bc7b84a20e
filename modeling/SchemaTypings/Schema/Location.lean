/-
  SchemaTypings.Schema.Location

  Where in a schema document something is, as the steps that lead there from the root.
-/
import SchemaTypings.Number.Text

namespace SchemaTypings

/-- The steps from the root of a document, outermost first. -/
structure Location where
  steps : List String := []
deriving DecidableEq

namespace Location

/-- The root of a document. -/
def root : Location := {}

/-- One step further down. -/
def child (l : Location) (step : String) : Location := ⟨l.steps ++ [step]⟩

/-- One step further down, to a member of a list. -/
def item (l : Location) (index : Nat) : Location := l.child (natText index)

/-- The location as a fragment: each step stands behind a slash as it is. -/
def chars (l : Location) : List Char := '#' :: l.steps.flatMap fun step => '/' :: step.toList

/-- The location as a text. -/
def text (l : Location) : String := String.ofList l.chars

end Location
end SchemaTypings
