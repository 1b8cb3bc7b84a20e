/-
  SchemaTypings.Json.Basic

  JSON values.  Integers of any size and floats are told apart, and an object keeps the order of its
  entries.
-/
import SchemaTypings.Entries
import SchemaTypings.Number.Binary64

namespace SchemaTypings

/-- A JSON value. -/
inductive Json where
  | null
  | bool (b : Bool)
  | int (n : Int)
  | float (x : Binary64)
  | str (s : String)
  | arr (items : List Json)
  | obj (entries : List (String × Json))
deriving Inhabited

/-- The value of a key, null where there is none: a missing field and a null one read the same. -/
def Entries.field (es : Entries Json) (key : String) : Json := (es.get? key).getD .null

namespace Json

/-- The empty values are false: null, `false`, zeros, and empty texts, lists and objects. -/
def isTruthy : Json → Bool
  | .null => false
  | .bool b => b
  | .int n => n ≠ 0
  | .float x => !x.isZero
  | .str s => s ≠ ""
  | .arr items => !items.isEmpty
  | .obj entries => !entries.isEmpty

/-- The name of a value's type in messages. -/
def typeName : Json → String
  | .null => "NoneType"
  | .bool _ => "bool"
  | .int _ => "int"
  | .float _ => "float"
  | .str _ => "str"
  | .arr _ => "list"
  | .obj _ => "dict"

/-- Whether a value is neither a list nor an object. -/
def isScalar : Json → Bool
  | .arr _ | .obj _ => false
  | _ => true

/-- How many digits of an integer are read and written at most. -/
def maxIntegerDigits : Nat := 4300

mutual
/-- Whether no integer in the value has more digits than are written. -/
def isWritable : Json → Bool
  | .int n => n.natAbs < Nat.pow 10 maxIntegerDigits
  | .arr items => allWritable items
  | .obj entries => entriesWritable entries
  | _ => true

/-- Whether every member of a list can be written. -/
def allWritable : List Json → Bool
  | [] => true
  | item :: rest => item.isWritable && allWritable rest

/-- Whether every value of an object can be written. -/
def entriesWritable : List (String × Json) → Bool
  | [] => true
  | entry :: rest => entryWritable entry && entriesWritable rest

/-- Whether an entry's value can be written. -/
def entryWritable : String × Json → Bool
  | (_, value) => value.isWritable
end

mutual
/-- Whether every object in the value has each key once. -/
def HasDistinctKeys : Json → Prop
  | .arr items => AllHaveDistinctKeys items
  | .obj entries => (entries.map Prod.fst).Nodup ∧ EntriesHaveDistinctKeys entries
  | _ => True

/-- Whether every member of a list has distinct keys. -/
def AllHaveDistinctKeys : List Json → Prop
  | [] => True
  | item :: rest => item.HasDistinctKeys ∧ AllHaveDistinctKeys rest

/-- Whether every value of an object has distinct keys. -/
def EntriesHaveDistinctKeys : List (String × Json) → Prop
  | [] => True
  | entry :: rest => EntryHasDistinctKeys entry ∧ EntriesHaveDistinctKeys rest

/-- Whether an entry's value has distinct keys. -/
def EntryHasDistinctKeys : String × Json → Prop
  | (_, value) => value.HasDistinctKeys
end

end Json

/-- The value of a key that is there is smaller than the object. -/
theorem Entries.sizeOf_lt_of_get? {es : Entries Json} {key : String} {value : Json}
    (h : es.get? key = some value) : sizeOf value < sizeOf es := by
  induction es with
  | nil => simp at h
  | cons e rest ih =>
    obtain ⟨k, v⟩ := e
    rw [get?_cons] at h
    split at h
    · cases h
      simp only [List.cons.sizeOf_spec, Prod.mk.sizeOf_spec]
      omega
    · have := ih h
      simp only [List.cons.sizeOf_spec, Prod.mk.sizeOf_spec]
      omega

end SchemaTypings
