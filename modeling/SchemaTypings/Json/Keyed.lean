/-
  SchemaTypings.Json.Keyed

  Entries whose keys are values without parts, not texts alone.  Keys that are the same number are
  the same key, however they are written; a key keeps its place and its first spelling, and the last
  value for it counts.
-/
import SchemaTypings.Json.Basic

namespace SchemaTypings

/-- What tells one key from another: truth values and whole numbers count as integers. -/
inductive ScalarKey where
  | null
  | integer (n : Int)
  | fraction (x : Binary64)
  | text (s : String)
deriving DecidableEq

/-- The key that a value serves as; a list or an object serves as none. -/
def ScalarKey.of? : Json → Option ScalarKey
  | .null => some .null
  | .bool b => some (.integer b.toNat)
  | .int n => some (.integer n)
  | .float x =>
    match x.whole? with
    | some n => some (.integer n)
    | none => some (.fraction x)
  | .str s => some (.text s)
  | _ => none

/-- Entries with a value as their key. -/
abbrev KeyedEntries := List (Json × Json)

namespace KeyedEntries

/-- The value of the first entry whose key is this text. -/
def get? (es : KeyedEntries) (name : String) : Option Json :=
  (es.find? fun e => ScalarKey.of? e.1 = some (.text name)).map Prod.snd

/-- The entries with a value put in: in the place of an equal key if there is one, else at the
end. -/
def insert : KeyedEntries → Json → Json → KeyedEntries
  | [], key, value => [(key, value)]
  | (k, v) :: rest, key, value =>
    if ScalarKey.of? k = ScalarKey.of? key then (k, value) :: rest
    else (k, v) :: insert rest key value

/-- The entries with all of `more` put in, one after the other. -/
def insertAll (es more : KeyedEntries) : KeyedEntries :=
  more.foldl (fun acc e => acc.insert e.1 e.2) es

/-- Entries with texts as their keys. -/
def ofEntries (es : Entries Json) : KeyedEntries := es.map fun e => (.str e.1, e.2)

end KeyedEntries
end SchemaTypings
