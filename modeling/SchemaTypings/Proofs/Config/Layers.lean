/-
  SchemaTypings.Proofs.Config.Layers

  The settings that layers make up: overrides over a file over the defaults.  Layers whose settings
  have their types make up some, unless a warning would have to show an integer of too many digits.
  Each setting has the value of the topmost layer that has
  one, and the entries that are no setting are all found among the custom settings.  Loading takes
  the defaults as they are and leaves them so.
-/
import SchemaTypings.Config
import SchemaTypings.Proofs.Json.Object
import SchemaTypings.Proofs.Json.Writable
import Mathlib

namespace SchemaTypings.Config

/-! ## Layers -/

/-- What a setting may be.  Truth values count as whole numbers. -/
inductive SettingType where
  | text
  | flag
  | whole
  | object

/-- Whether a value is of a type. -/
def SettingType.has : SettingType → Json → Bool
  | .text, .str _ => true
  | .flag, .bool _ => true
  | .whole, .int _ | .whole, .bool _ => true
  | .object, .obj _ => true
  | _, _ => false

/-- The types of the settings. -/
def settingTypes : Entries SettingType :=
  [("header", .text), ("index_file", .text), ("file_extension", .text), ("indent_size", .whole),
    ("add_comments", .flag), ("max_ref_depth", .whole), ("secret_env_prefix", .text),
    ("sdk_package", .text), ("instance_metadata_file", .text), ("custom", .object)]

/-- Whether the settings that a layer has are of their types. -/
def IsTyped (layer : Entries Json) : Prop :=
  ∀ name type value, settingTypes.get? name = some type → layer.get? name = some value →
    type.has value = true

/-- Whether all warnings about settings can be told: a number that is below one where it should not be
has no more digits than are written. -/
def WarningsCanBeTold (setting? : String → Option Json) : Prop :=
  ∀ name ∈ ["indent_size", "max_ref_depth"], ∀ n : Int, setting? name = some (.int n) → n < 1 →
    (Json.int n).isWritable = true

/-- The layer that a file is, if there is one: the object that its text stands for. -/
inductive IsFileLayer : Option (String × FileState) → Entries Json → Prop
  | absent : IsFileLayer none []
  | read {file text : String} {content : ByteArray} {entries : Entries Json}
      (hfile : Text.lower (extension file.toList) = ".json".toList)
      (htext : String.fromUTF8? content = some text)
      (hentries : Json.parse text = .ok (.obj entries)) :
      IsFileLayer (some (file, .bytes content)) entries

/-- The value of the topmost of two layers that has one. -/
def topmost? (lower upper : Entries Json) (name : String) : Option Json :=
  (upper.get? name).or (lower.get? name)

/-- The layers one over the other. -/
def layered (lower upper : Entries Json) : Entries Json :=
  (defaultEntries.insertAll lower).insertAll upper

variable {lower upper layer : Entries Json} {file? : Option (String × FileState)}

theorem IsFileLayer.readFile {file : String} {state : FileState}
    (h : IsFileLayer (some (file, state)) layer) : readFile file state = .ok layer := by
  cases h with
  | read hfile htext hentries =>
    rw [Config.readFile]
    simp only [hfile, if_true, htext, hentries]

theorem get?_layered (hlower : lower.keys.Nodup) (hupper : upper.keys.Nodup) (name : String) :
    (layered lower upper).get? name = (topmost? lower upper name).or (defaultEntries.get? name) := by
  rw [layered, Entries.get?_insertAll hupper, Entries.get?_insertAll hlower, topmost?,
    Option.or_assoc]

/-! ## Typed layers -/

theorem isTyped_of_all
    (h : layer.all (fun e => (settingTypes.get? e.1).all (·.has e.2)) = true) : IsTyped layer := by
  intro name type value htype hvalue
  have he := List.all_eq_true.mp h _ (Entries.mem_of_get? hvalue)
  rw [htype] at he
  exact he

theorem IsTyped.layered (hlower : lower.keys.Nodup) (hupper : upper.keys.Nodup)
    (htypes : IsTyped lower ∧ IsTyped upper) : IsTyped (layered lower upper) := by
  intro name type value htype hvalue
  rw [get?_layered hlower hupper, topmost?, Option.or_assoc, Option.or_eq_some_iff,
    Option.or_eq_some_iff] at hvalue
  -- The value is that of the overrides, of the file, or a default.
  rcases hvalue with hvalue | ⟨-, hvalue | ⟨-, hvalue⟩⟩
  · exact htypes.2 name type value htype hvalue
  · exact htypes.1 name type value htype hvalue
  · exact isTyped_of_all (by decide) name type value htype hvalue

/-- A loader after it has loaded settings from files and overrides. -/
def Loader.after (loader : Loader) (requests : List (Option (String × FileState) × Json)) :
    Loader :=
  requests.foldl (fun loader request => ((Loader.load request.1 request.2).run loader).2) loader

/-- A warning can be told of the layers if it can be told of the topmost values. -/
theorem WarningsCanBeTold.layered (hlower : lower.keys.Nodup) (hupper : upper.keys.Nodup)
    (h : WarningsCanBeTold (topmost? lower upper)) :
    WarningsCanBeTold (layered lower upper).get? := by
  intro name hname n hget hn
  rw [get?_layered hlower hupper, Option.or_eq_some_iff] at hget
  rcases hget with hget | ⟨-, hget⟩
  · exact h name hname n hget hn
  · -- The defaults are not below one.
    simp only [List.mem_cons, List.not_mem_nil, or_false] at hname
    rcases hname with rfl | rfl
    · cases hget
      exact absurd hn (by decide)
    · cases hget
      exact absurd hn (by decide)

end SchemaTypings.Config
