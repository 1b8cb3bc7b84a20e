/-
  SchemaTypings.Text.Case

  Lower, upper and title case of a text, by the full mappings: one character may become several,
  and a capital sigma becomes the final form at the end of a word.
-/
import SchemaTypings.Text.CaseTable

namespace SchemaTypings.Text

/-! ## One character -/

/-- The image of a code point under runs of four numbers `first, last, step, image`. -/
def imageInRuns : List Nat → Nat → Option Nat
  | first :: last :: step :: image :: rest, n =>
    if first ≤ n ∧ n ≤ last ∧ (n - first) % step = 0 then some (image + (n - first))
    else imageInRuns rest n
  | _, _ => none

/-- Whether a code point lies in one of the half-open ranges that a list of bounds stands for. -/
def inBounds : List Nat → Nat → Bool
  | low :: high :: rest, n => if n < low then false else if n < high then true else inBounds rest n
  | _, _ => false

/-- The image of a character beyond ASCII: a listed sequence, the image in a run, or itself. -/
def mapBeyondAscii (sequences : List (Nat × List Nat)) (runs : List Nat) (c : Char) : List Char :=
  match sequences.lookup c.toNat with
  | some codes => codes.map Char.ofNat
  | none =>
    match imageInRuns runs c.toNat with
    | some code => [Char.ofNat code]
    | none => [c]

/-- ASCII characters map within ASCII, by core's case functions. -/
def isAscii (c : Char) : Bool := c.toNat < 128

/-- The lower-case form of a character on its own. -/
def lowerChar (c : Char) : List Char :=
  if isAscii c then [c.toLower] else mapBeyondAscii lowerSequences lowerRuns c

/-- The upper-case form of a character. -/
def upperChar (c : Char) : List Char :=
  if isAscii c then [c.toUpper] else mapBeyondAscii upperSequences upperRuns c

/-- The title-case form of a character, the one it has at the start of a word. -/
def titleChar (c : Char) : List Char :=
  if isAscii c then [c.toUpper] else mapBeyondAscii titleSequences titleRuns c

theorem lowerChar_of_isAscii {c : Char} (h : isAscii c) : lowerChar c = [c.toLower] := by
  simp [lowerChar, h]

theorem titleChar_of_isAscii {c : Char} (h : isAscii c) : titleChar c = [c.toUpper] := by
  simp [titleChar, h]

/-! ## A text -/

/-- A letter that has case; a look for the end of a word stops at it. -/
def isCased (c : Char) : Bool :=
  if isAscii c then c.isAlpha else inBounds casedBounds c.toNat

/-- A mark that a look for the end of a word passes over. -/
def isPassedOver (c : Char) : Bool :=
  if isAscii c then c = '\'' || c = '.' || c = ':' || c = '^' || c = '`'
  else inBounds passedBounds c.toNat

/-- Whether the first character that is not passed over has case. -/
def meetsCased (cs : List Char) : Bool :=
  ((cs.dropWhile isPassedOver).head?.map isCased).getD false

/-- Lower case of `rest`, which stands after the characters `before` (nearest first): a capital
sigma after a cased letter and with none behind it takes its final form. -/
def lowerAfter (before : List Char) : List Char → List Char
  | [] => []
  | c :: rest =>
    let image :=
      if c = 'Σ' then if meetsCased before && !meetsCased rest then ['ς'] else ['σ']
      else lowerChar c
    image ++ lowerAfter (c :: before) rest

/-- Lower case of a text. -/
def lower (cs : List Char) : List Char := lowerAfter [] cs

/-- Upper case of a text. -/
def upper (cs : List Char) : List Char := cs.flatMap upperChar

/-- The first character in title case, the others in lower case. -/
def capitalize : List Char → List Char
  | [] => []
  | c :: rest => titleChar c ++ lowerAfter [c] rest

@[simp] theorem lower_nil : lower [] = [] := rfl

@[simp] theorem capitalize_nil : capitalize [] = [] := rfl

/-- On ASCII text lower case is taken character by character. -/
theorem lowerAfter_of_ascii (before : List Char) :
    (cs : List Char) → (∀ c ∈ cs, isAscii c) → lowerAfter before cs = cs.map Char.toLower
  | [], _ => rfl
  | c :: rest, h => by
    have hc : isAscii c := h c (by simp)
    have hne : c ≠ 'Σ' := by rintro rfl; simp [isAscii] at hc
    have ih := lowerAfter_of_ascii (c :: before) rest fun d hd => h d (by simp [hd])
    simp [lowerAfter, hne, lowerChar_of_isAscii hc, ih]

/-- Lower case of a string. -/
def lowerString (s : String) : String := String.ofList (lower s.toList)

/-- Upper case of a string. -/
def upperString (s : String) : String := String.ofList (upper s.toList)

end SchemaTypings.Text
