/-
  SchemaTypings.Proofs.Typescript.TypeReader

  A reader of type expressions, and that it reads the text of a type expression back.

  The reader knows the grammar only: brackets bind tighter than bars, an array in brackets or in
  angle brackets, records in braces, literals and names.  It has no way to see how unions are nested
  that are written in a row, so what it gives is the expression with such nesting taken out (`flat`).
-/
import SchemaTypings.Proofs.Json.Reading
import SchemaTypings.Proofs.Typescript.TypeName
import SchemaTypings.Typescript.Exports
import SchemaTypings.Typescript.TypeExpr

namespace SchemaTypings.Typescript

open Naming (isIdentifierPart isIdentifierStart)

/-! ## The reader -/

namespace TypeExpr

/-- The members of a union; any other type is its own sole member. -/
def parts : TypeExpr → List TypeExpr
  | .union ts => ts
  | t => [t]

/-- The union of members; a sole one stands for itself. -/
def ofParts : List TypeExpr → TypeExpr
  | [t] => t
  | ts => .union ts

/-- The type that a word stands for on its own. -/
def ofWord (word : List Char) : TypeExpr :=
  if word = "any".toList then .any
  else if word = "null".toList then .null
  else if word = "string".toList then .primitive .string
  else if word = "number".toList then .primitive .number
  else if word = "boolean".toList then .primitive .boolean
  else if word = "true".toList then .literal (.bool true)
  else if word = "false".toList then .literal (.bool false)
  else .named (String.ofList word)

/-- The type with an array around it for each pair of brackets in front of the text, and the rest of
the text. -/
def readBrackets (t : TypeExpr) : List Char → TypeExpr × List Char
  | '[' :: ']' :: rest => readBrackets (.array t) rest
  | rest => (t, rest)

/-- The natural number whose digits a text begins with. -/
def readDigits (text : List Char) : Option (Nat × List Char) :=
  match text.takeWhile Char.isDigit with
  | [] => none
  | ds => some (Json.ofDigits ds, text.dropWhile Char.isDigit)

section
variable (readInner : List Char → Option (List TypeExpr × List Char))

/-- The type in front of a text, up to a closing sign. -/
def readEnclosed (close : List Char) (make : TypeExpr → TypeExpr) (text : List Char) :
    Option (TypeExpr × List Char) :=
  match readInner text with
  | none => none
  | some (ts, rest) => (dropStart? close rest).map fun rest => (make (ofParts ts), rest)

/-- The type in front of a text, without brackets behind it. -/
def readBase (text : List Char) : Option (TypeExpr × List Char) :=
  match text with
  | '\x7b' :: '\x7d' :: rest => some (.emptyObject, rest)
  | '\x7b' :: rest =>
    (dropStart? " [k: string]: ".toList rest).bind (readEnclosed readInner [' ', '\x7d'] .record)
  | '"' :: rest =>
    match Json.stringBody rest with
    | .ok (s, rest) => some (.literal (.str s), rest)
    | .error _ => none
  | c :: rest =>
    if c = '-' then (readDigits rest).map fun (n, rest) => (.literal (.int (-n)), rest)
    else if c.isDigit then (readDigits text).map fun (n, rest) => (.literal (.int n), rest)
    else if isIdentifierStart c then
      if text.takeWhile isIdentifierPart = "Array".toList then
        (dropStart? ['<'] (text.dropWhile isIdentifierPart)).bind
          (readEnclosed readInner ['>'] .array)
      else some (ofWord (text.takeWhile isIdentifierPart), text.dropWhile isIdentifierPart)
    else none
  | [] => none

/-- The type in front of a text, up to a bar. -/
def readTerm (text : List Char) : Option (TypeExpr × List Char) :=
  (readBase readInner text).map fun (t, rest) => readBrackets t rest

end

/-- The members of the union in front of a text.  The first argument bounds the steps; more than the
text is long are always enough. -/
def readParts : Nat → List Char → Option (List TypeExpr × List Char)
  | 0, _ => none
  | steps + 1, text =>
    match readTerm (readParts steps) text with
    | some (t, ' ' :: '|' :: ' ' :: rest) =>
      (readParts steps rest).map fun (ts, rest) => (t :: ts, rest)
    | some (t, rest) => some ([t], rest)
    | none => none

/-- The type that a whole text stands for. -/
def read (text : List Char) : Option TypeExpr :=
  match readParts (text.length + 1) text with
  | some (ts, []) => some (ofParts ts)
  | _ => none

mutual
/-- The expression with unions in unions taken apart. -/
def flat : TypeExpr → TypeExpr
  | .array t => .array t.flat
  | .record t => .record t.flat
  | .union ts => ofParts (flatAll ts)
  | .literal .null => .null
  | t => t

/-- The members of all the expressions. -/
def flatAll : List TypeExpr → List TypeExpr
  | [] => []
  | t :: rest => t.flat.parts ++ flatAll rest
end

end TypeExpr

/-! ## Expressions that can be read -/

/-- Whether a literal is null, a truth value, an integer or a text. -/
def isReadableLiteral : Json → Bool
  | .null | .bool _ | .int _ | .str _ => true
  | _ => false

namespace TypeExpr

mutual
/-- Whether an expression is made of names, readable literals and unions with members. -/
def IsReadable : TypeExpr → Prop
  | .named name => IsTypeName name
  | .literal value => isReadableLiteral value = true
  | .array t => t.IsReadable
  | .record t => t.IsReadable
  | .union ts => ts ≠ [] ∧ AllReadable ts
  | _ => True

/-- Whether all expressions are. -/
def AllReadable : List TypeExpr → Prop
  | [] => True
  | t :: rest => t.IsReadable ∧ AllReadable rest
end

theorem allReadable_iff {ts : List TypeExpr} : AllReadable ts ↔ ∀ t ∈ ts, t.IsReadable := by
  induction ts with
  | nil => simp [AllReadable]
  | cons t rest ih => rw [AllReadable, ih, List.forall_mem_cons]

/-! ## Flat expressions -/

/-- A flat expression that is no union.  What arrays and records hold is given by its members. -/
inductive IsTerm : TypeExpr → Prop where
  | any : IsTerm .any
  | null : IsTerm .null
  | primitive (kind : Primitive) : IsTerm (.primitive kind)
  | bool (b : Bool) : IsTerm (.literal (.bool b))
  | int (n : Int) : IsTerm (.literal (.int n))
  | str (s : String) : IsTerm (.literal (.str s))
  | emptyObject : IsTerm .emptyObject
  | named {name : String} (hname : IsTypeName name) : IsTerm (.named name)
  | array {ts : List TypeExpr} (hne : ts ≠ []) (hts : ∀ t ∈ ts, IsTerm t) :
      IsTerm (.array (ofParts ts))
  | record {ts : List TypeExpr} (hne : ts ≠ []) (hts : ∀ t ∈ ts, IsTerm t) :
      IsTerm (.record (ofParts ts))

theorem IsTerm.parts_eq {t : TypeExpr} (h : IsTerm t) : t.parts = [t] := by
  cases h <;> rfl

/-- Members that are no unions are the members of their union. -/
theorem parts_ofParts {ts : List TypeExpr} (h : ∀ t ∈ ts, t.parts = [t]) :
    (ofParts ts).parts = ts := by
  unfold ofParts
  split
  · next t => exact h t (List.mem_singleton_self t)
  · rfl

/-- The text of members with bars between them. -/
def barred (ts : List TypeExpr) : List Char := Text.joinWith [' ', '|', ' '] (ts.map chars)

theorem partChars_eq_map (ts : List TypeExpr) : partChars ts = ts.map chars := by
  induction ts with
  | nil => rfl
  | cons t rest ih => rw [partChars, ih, List.map_cons]

theorem chars_union (ts : List TypeExpr) : (union ts).chars = barred ts := by
  rw [chars, partChars_eq_map, barred]

theorem barred_singleton (t : TypeExpr) : barred [t] = t.chars := rfl

theorem barred_cons_cons (t next : TypeExpr) (rest : List TypeExpr) :
    barred (t :: next :: rest) = t.chars ++ ' ' :: '|' :: ' ' :: barred (next :: rest) := by
  simp only [barred, List.map_cons, Text.joinWith, List.append_assoc]
  rfl

theorem chars_ofParts (ts : List TypeExpr) : (ofParts ts).chars = barred ts := by
  unfold ofParts
  split
  · rfl
  · exact chars_union _

theorem barred_append {ts us : List TypeExpr} (hts : ts ≠ []) (hus : us ≠ []) :
    barred (ts ++ us) = barred ts ++ ' ' :: '|' :: ' ' :: barred us := by
  induction ts with
  | nil => exact absurd rfl hts
  | cons t rest ih =>
    cases rest with
    | nil =>
      obtain ⟨u, us, rfl⟩ := List.exists_cons_of_ne_nil hus
      exact barred_cons_cons t u us
    | cons next rest =>
      rw [List.cons_append, List.cons_append, barred_cons_cons, ← List.cons_append,
        ih (List.cons_ne_nil _ _), barred_cons_cons]
      simp

/-- What taking an expression apart gives: members that are no unions, with the same text. -/
structure IsFlatOf (t u : TypeExpr) : Prop where
  ofParts_parts : ofParts u.parts = u
  parts_ne_nil : u.parts ≠ []
  isTerm : ∀ p ∈ u.parts, IsTerm p
  barred_parts : barred u.parts = t.chars

theorem IsFlatOf.chars_eq {t u : TypeExpr} (h : IsFlatOf t u) : u.chars = t.chars := by
  rw [← h.barred_parts, ← chars_ofParts, h.ofParts_parts]

theorem isFlatOf_term {t u : TypeExpr} (hu : IsTerm u) (hchars : u.chars = t.chars) :
    IsFlatOf t u := by
  have hparts : u.parts = [u] := by cases hu <;> rfl
  refine ⟨by rw [hparts]; rfl, by simp [hparts], ?_, ?_⟩
  · rw [hparts]
    simpa using hu
  · rw [hparts, barred_singleton, hchars]

mutual
/-- A readable expression is taken apart without a change of its text. -/
theorem isFlatOf_flat : (t : TypeExpr) → t.IsReadable → IsFlatOf t t.flat
  | .any, _ => isFlatOf_term .any rfl
  | .null, _ => isFlatOf_term .null rfl
  | .primitive kind, _ => isFlatOf_term (.primitive kind) rfl
  | .emptyObject, _ => isFlatOf_term .emptyObject rfl
  | .named _, h => isFlatOf_term (.named h) rfl
  | .literal .null, _ => isFlatOf_term .null rfl
  | .literal (.bool b), _ => isFlatOf_term (.bool b) rfl
  | .literal (.int n), _ => isFlatOf_term (.int n) rfl
  | .literal (.str s), _ => isFlatOf_term (.str s) rfl
  | .literal (.float _), h | .literal (.arr _), h | .literal (.obj _), h => by
    simp [IsReadable, isReadableLiteral] at h
  | .array t, h => by
    have ht := isFlatOf_flat t h
    have hterm := IsTerm.array ht.parts_ne_nil ht.isTerm
    rw [ht.ofParts_parts] at hterm
    refine isFlatOf_term hterm ?_
    simp only [flat, chars, ht.chars_eq]
  | .record t, h => by
    have ht := isFlatOf_flat t h
    have hterm := IsTerm.record ht.parts_ne_nil ht.isTerm
    rw [ht.ofParts_parts] at hterm
    refine isFlatOf_term hterm ?_
    simp only [flat, chars, ht.chars_eq]
  | .union ts, h => by
    obtain ⟨hne, hall⟩ := h
    obtain ⟨hflatNe, hterms, hbarred⟩ := flatAll_spec ts hne hall
    have hparts := parts_ofParts fun t ht => (hterms t ht).parts_eq
    rw [flat]
    refine ⟨by rw [hparts], by rw [hparts]; exact hflatNe, by rw [hparts]; exact hterms, ?_⟩
    rw [hparts, hbarred, chars_union]

theorem flatAll_spec : (ts : List TypeExpr) → ts ≠ [] → AllReadable ts →
    flatAll ts ≠ [] ∧ (∀ p ∈ flatAll ts, IsTerm p) ∧ barred (flatAll ts) = barred ts
  | [], hne, _ => absurd rfl hne
  | [t], _, h => by
    have ht := isFlatOf_flat t h.1
    rw [flatAll, flatAll, List.append_nil]
    exact ⟨ht.parts_ne_nil, ht.isTerm, ht.barred_parts⟩
  | t :: next :: rest, _, h => by
    have ht := isFlatOf_flat t h.1
    obtain ⟨hne, hterms, hbarred⟩ := flatAll_spec (next :: rest) (List.cons_ne_nil _ _) h.2
    rw [flatAll]
    refine ⟨by simp [ht.parts_ne_nil], ?_, ?_⟩
    · intro p hp
      rcases List.mem_append.mp hp with hp | hp
      · exact ht.isTerm p hp
      · exact hterms p hp
    · rw [barred_append ht.parts_ne_nil hne, ht.barred_parts, hbarred, barred_cons_cons]
end

/-! ## Words, numbers and texts -/

/-- Whether no identifier goes on into a text. -/
def Ends (text : List Char) : Prop := ∀ c ∈ text.head?, isIdentifierPart c = false

theorem ends_cons {c : Char} {rest : List Char} (h : isIdentifierPart c = false) :
    Ends (c :: rest) := by
  simpa [Ends] using h

theorem takeWhile_of_ends {p : Char → Bool} {word k : List Char} (hword : ∀ c ∈ word, p c = true)
    (hp : ∀ c, isIdentifierPart c = false → p c = false) (hk : Ends k) :
    (word ++ k).takeWhile p = word ∧ (word ++ k).dropWhile p = k := by
  rw [List.takeWhile_append_of_pos hword, List.dropWhile_append_of_pos hword]
  cases k with
  | nil => simp
  | cons c rest =>
    have hc := hp c (hk c rfl)
    simp [hc]

theorem isIdentifierPart_of_isDigit {c : Char} (h : c.isDigit = true) :
    isIdentifierPart c = true := by
  simp [isIdentifierPart, h]

theorem readDigits_toDigits (n : Nat) {k : List Char} (hk : Ends k) :
    readDigits (Nat.toDigits 10 n ++ k) = some (n, k) := by
  have hdigits : ∀ c ∈ Nat.toDigits 10 n, c.isDigit = true :=
    fun c hc => Json.isDigit_of_mem_toDigits hc
  have hnot : ∀ c, isIdentifierPart c = false → c.isDigit = false := by
    intro c hc
    by_contra hdigit
    rw [isIdentifierPart_of_isDigit (by simpa using hdigit)] at hc
    cases hc
  obtain ⟨htake, hdrop⟩ := takeWhile_of_ends hdigits hnot hk
  rw [readDigits, htake, hdrop]
  split
  · next hnil => exact absurd hnil Nat.toDigits_ne_nil
  · rw [Json.ofDigits_toDigits]

section
variable {readInner : List Char → Option (List TypeExpr × List Char)} {k : List Char}

theorem readBase_int (n : Int) (hk : Ends k) :
    readBase readInner ((Json.int n).chars ++ k) = some (.literal (.int n), k) := by
  rw [Json.chars, intChars]
  split
  · next hneg =>
    have hread := readDigits_toDigits n.natAbs hk
    rw [List.cons_append, readBase]
    · rw [if_pos rfl, hread]
      have habs : -(n.natAbs : Int) = n := by omega
      show some (TypeExpr.literal (.int (-(n.natAbs : Int))), k) = _
      rw [habs]
    all_goals simp
  · next hnonneg =>
    have hread := readDigits_toDigits n.natAbs hk
    obtain ⟨d, ds, hds⟩ := List.exists_cons_of_ne_nil (Nat.toDigits_ne_nil (n := n.natAbs) (b := 10))
    have hd : d.isDigit = true := Json.isDigit_of_mem_toDigits (hds ▸ List.mem_cons_self)
    have hother : d ≠ '\x7b' ∧ d ≠ '"' ∧ d ≠ '-' := by
      refine ⟨?_, ?_, ?_⟩ <;> (rintro rfl; cases hd)
    rw [hds, List.cons_append] at hread ⊢
    rw [readBase]
    · rw [if_neg hother.2.2, if_pos hd, hread]
      have habs : (n.natAbs : Int) = n := by omega
      show some (TypeExpr.literal (.int (n.natAbs : Int)), k) = _
      rw [habs]
    · simp [hother.1]
    · simp [hother.1]
    · simp [hother.2.1]

theorem readBase_str (s : String) :
    readBase readInner ((Json.str s).chars ++ k) = some (.literal (.str s), k) := by
  rw [Json.chars, Json.quoted]
  simp only [List.cons_append, List.append_assoc, List.nil_append]
  rw [readBase, Json.stringBody_quoted]

/-- A word other than the array's is read as what it stands for. -/
theorem readBase_word (first : Char) {word : List Char} (hfirst : isIdentifierStart first = true)
    (hword : word.all isIdentifierPart = true) (hnot : first :: word ≠ "Array".toList)
    (hk : Ends k) :
    readBase readInner (first :: word ++ k) = some (ofWord (first :: word), k) := by
  have hall : ∀ c ∈ first :: word, isIdentifierPart c = true := by
    rw [List.forall_mem_cons]
    exact ⟨by simp [isIdentifierPart, hfirst], List.all_eq_true.mp hword⟩
  obtain ⟨htake, hdrop⟩ := takeWhile_of_ends hall (fun _ h => h) hk
  -- a word begins with none of the characters that announce another kind of type
  have hother : first ≠ '\x7b' ∧ first ≠ '"' ∧ first ≠ '-' ∧ first.isDigit = false := by
    refine ⟨?_, ?_, ?_, ?_⟩
    · rintro rfl; cases hfirst
    · rintro rfl; cases hfirst
    · rintro rfl; cases hfirst
    · have hascii : Text.isAscii first = true := by
        simp only [isIdentifierStart, Bool.or_eq_true, decide_eq_true_eq] at hfirst
        rcases hfirst with (h | rfl) | rfl
        · exact Naming.isAscii_of_isAlphanum (by simp [Char.isAlphanum, h])
        · rfl
        · rfl
      have hlook := Naming.forall_ascii (p := fun c => !isIdentifierStart c || !c.isDigit)
        (by decide +kernel) hascii
      simpa [hfirst] using hlook
  rw [List.cons_append] at htake hdrop ⊢
  rw [readBase]
  · rw [if_neg hother.2.2.1, if_neg (by simp [hother.2.2.2]), if_pos hfirst, htake, hdrop,
      if_neg hnot]
  · simp [hother.1]
  · simp [hother.1]
  · simp [hother.2.1]

theorem isIdentifierPart_of_isNameChar {c : Char} (h : Naming.isNameChar c = true) :
    isIdentifierPart c = true := by
  simp only [Naming.isNameChar, Char.isAlphanum, Bool.or_eq_true, decide_eq_true_eq] at h
  simp only [isIdentifierPart, isIdentifierStart, Bool.or_eq_true, decide_eq_true_eq]
  tauto

theorem ofWord_of_isTypeName {name : String} (h : IsTypeName name) :
    ofWord name.toList = .named name := by
  have hnot := h.not_word
  simp only [typeWords, List.map_cons, List.map_nil, List.mem_cons, List.not_mem_nil, or_false,
    not_or] at hnot
  obtain ⟨h1, h2, h3, h4, h5, h6, h7, -⟩ := hnot
  rw [ofWord, if_neg h1, if_neg h2, if_neg h3, if_neg h4, if_neg h5, if_neg h6, if_neg h7,
    String.ofList_toList]

theorem readBase_named {name : String} (h : IsTypeName name) (hk : Ends k) :
    readBase readInner (name.toList ++ k) = some (.named name, k) := by
  obtain ⟨first, word, hname⟩ := List.exists_cons_of_ne_nil h.isName.ne_nil
  have hall := h.isName.all_nameChar
  have hdigit := h.isName.head_not_digit
  rw [hname] at hall hdigit
  rw [List.forall_mem_cons] at hall
  have hfirst : isIdentifierStart first = true := by
    have hpart := isIdentifierPart_of_isNameChar hall.1
    rw [isIdentifierPart, hdigit first rfl, Bool.or_false] at hpart
    exact hpart
  have hnot : first :: word ≠ "Array".toList := by
    rw [← hname]
    intro heq
    exact h.not_word (by rw [heq]; decide)
  have hpart : ∀ c ∈ word, isIdentifierPart c = true := fun c hc =>
    isIdentifierPart_of_isNameChar (hall.2 c hc)
  rw [hname, readBase_word first hfirst (List.all_eq_true.mpr hpart) hnot hk,
    ← hname, ofWord_of_isTypeName h]

end

/-! ## Reading back -/

/-- Whether a text closes the type in front of it. -/
def Closes (text : List Char) : Prop :=
  text = [] ∨ (∃ rest, text = '>' :: rest) ∨ ∃ rest, text = ' ' :: '\x7d' :: rest

theorem Closes.ends {text : List Char} (h : Closes text) : Ends text := by
  rcases h with rfl | ⟨rest, rfl⟩ | ⟨rest, rfl⟩
  · simp [Ends]
  · exact ends_cons (by decide)
  · exact ends_cons (by decide)

theorem Closes.readBrackets {text : List Char} (h : Closes text) (t : TypeExpr) :
    readBrackets t text = (t, text) := by
  rcases h with rfl | ⟨rest, rfl⟩ | ⟨rest, rfl⟩ <;> rfl

/-- Whether a term is read back in front of whatever ends it. -/
def IsReadBack (t : TypeExpr) : Prop :=
  ∀ steps k, t.chars.length ≤ steps → Ends k →
    readTerm (readParts steps) (t.chars ++ k) = some (readBrackets t k)

theorem length_barred_cons_cons (t next : TypeExpr) (rest : List TypeExpr) :
    (barred (t :: next :: rest)).length = t.chars.length + 3 + (barred (next :: rest)).length := by
  rw [barred_cons_cons, List.length_append, List.length_cons, List.length_cons, List.length_cons]
  omega

/-- Members that are read back one by one are read back together. -/
theorem readParts_barred {ts : List TypeExpr} (hne : ts ≠ []) (hts : ∀ t ∈ ts, IsReadBack t)
    {steps : Nat} {k : List Char} (hsteps : (barred ts).length < steps) (hk : Closes k) :
    readParts steps (barred ts ++ k) = some (ts, k) := by
  induction ts generalizing steps with
  | nil => exact absurd rfl hne
  | cons t rest ih =>
    rw [List.forall_mem_cons] at hts
    cases steps with
    | zero => omega
    | succ steps =>
      cases rest with
      | nil =>
        rw [barred_singleton] at hsteps ⊢
        rw [readParts, hts.1 steps k (by omega) hk.ends, hk.readBrackets]
        rcases hk with rfl | ⟨rest, rfl⟩ | ⟨rest, rfl⟩ <;> rfl
      | cons next rest =>
        rw [length_barred_cons_cons] at hsteps
        rw [barred_cons_cons, List.append_assoc]
        simp only [List.cons_append]
        rw [readParts, hts.1 steps (' ' :: '|' :: ' ' :: (barred (next :: rest) ++ k)) (by omega)
          (ends_cons (by decide)), readBrackets]
        · simp only
          rw [ih (List.cons_ne_nil _ _) hts.2 (by omega)]
          rfl
        · simp

theorem space_not_mem_of_no_space {ts : List TypeExpr} (hne : ts ≠ []) (h : ' ' ∉ barred ts) :
    ∃ t, ts = [t] := by
  match ts, hne with
  | [t], _ => exact ⟨t, rfl⟩
  | t :: next :: rest, _ =>
    refine absurd ?_ h
    rw [barred_cons_cons]
    simp

theorem isReadBack_of_readBase {t : TypeExpr}
    (h : ∀ readInner k, Ends k → readBase readInner (t.chars ++ k) = some (t, k)) :
    IsReadBack t := by
  intro steps k _ hk
  rw [readTerm, h _ k hk]
  rfl

/-- A type between signs is read back if its members are. -/
theorem readEnclosed_barred {ts : List TypeExpr} (hne : ts ≠ []) (hts : ∀ t ∈ ts, IsReadBack t)
    {steps : Nat} {close k : List Char} {make : TypeExpr → TypeExpr}
    (hsteps : (barred ts).length < steps) (hclose : Closes (close ++ k)) :
    readEnclosed (readParts steps) close make (barred ts ++ (close ++ k)) =
      some (make (ofParts ts), k) := by
  rw [readEnclosed, readParts_barred hne hts hsteps hclose]
  simp only [dropStart?_append, Option.map_some]

/-- A record is read back if the members of what it holds are. -/
theorem isReadBack_record {ts : List TypeExpr} (hne : ts ≠ []) (hts : ∀ t ∈ ts, IsReadBack t) :
    IsReadBack (.record (ofParts ts)) := by
  intro steps k hsteps _
  have htext : (record (ofParts ts)).chars ++ k =
      '\x7b' :: (" [k: string]: ".toList ++ (barred ts ++ ([' ', '\x7d'] ++ k))) := by
    simp [chars, chars_ofParts]
  have hlength : (record (ofParts ts)).chars.length = (barred ts).length + 17 := by
    simp [chars, chars_ofParts]
  have hclose : Closes ([' ', '\x7d'] ++ k) := .inr (.inr ⟨k, rfl⟩)
  rw [readTerm, htext, readBase]
  · rw [dropStart?_append, Option.bind_some,
      readEnclosed_barred hne hts (by omega) hclose]
    rfl
  · intro rest heq
    simp at heq

/-- An array is read back if the members of what it holds are: a sole one stands in front of
brackets, others stand in angle brackets. -/
theorem isReadBack_array {ts : List TypeExpr} (hne : ts ≠ []) (hts : ∀ t ∈ ts, IsReadBack t) :
    IsReadBack (.array (ofParts ts)) := by
  intro steps k hsteps hk
  rw [chars, chars_ofParts] at hsteps ⊢
  unfold arrayChars at hsteps ⊢
  split at hsteps
  · next hspace =>
    rw [if_pos hspace]
    have htext : "Array<".toList ++ barred ts ++ ['>'] ++ k =
        'A' :: "rray".toList ++ ('<' :: (barred ts ++ (['>'] ++ k))) := by simp
    have hlength : ("Array<".toList ++ barred ts ++ ['>']).length = (barred ts).length + 7 := by
      simp
    have hclose : Closes (['>'] ++ k) := .inr (.inl ⟨k, rfl⟩)
    have hall : ∀ c ∈ 'A' :: "rray".toList, isIdentifierPart c = true :=
      List.all_eq_true.mp (by decide +kernel)
    obtain ⟨htake, hdrop⟩ := takeWhile_of_ends (k := '<' :: (barred ts ++ (['>'] ++ k))) hall
      (fun _ h => h) (ends_cons (by decide))
    rw [htext, readTerm]
    rw [List.cons_append] at htake hdrop ⊢
    rw [readBase]
    · rw [if_neg (by decide), if_neg (by decide), if_pos (by decide), htake, hdrop,
        if_pos (by decide)]
      have hdropped := dropStart?_append ['<'] (barred ts ++ (['>'] ++ k))
      rw [List.singleton_append] at hdropped
      rw [hdropped, Option.bind_some, readEnclosed_barred hne hts (by omega) hclose]
      rfl
    all_goals simp
  · next hspace =>
    rw [if_neg hspace]
    obtain ⟨t, rfl⟩ := space_not_mem_of_no_space hne hspace
    rw [barred_singleton, List.length_append] at hsteps
    rw [barred_singleton, List.append_assoc, List.cons_append, List.cons_append, List.nil_append,
      hts t (List.mem_singleton_self t) steps ('[' :: ']' :: k) (by omega)
        (ends_cons (by decide))]
    rfl

theorem isReadBack_of_isTerm {t : TypeExpr} (h : IsTerm t) : IsReadBack t := by
  induction h with
  | any =>
    exact isReadBack_of_readBase fun _ k hk =>
      readBase_word 'a' (by decide +kernel) (by decide +kernel) (by decide +kernel) hk
  | null =>
    exact isReadBack_of_readBase fun _ k hk =>
      readBase_word 'n' (by decide +kernel) (by decide +kernel) (by decide +kernel) hk
  | primitive kind =>
    cases kind with
    | string =>
      exact isReadBack_of_readBase fun _ k hk =>
        readBase_word 's' (by decide +kernel) (by decide +kernel) (by decide +kernel) hk
    | number =>
      exact isReadBack_of_readBase fun _ k hk =>
        readBase_word 'n' (by decide +kernel) (by decide +kernel) (by decide +kernel) hk
    | boolean =>
      exact isReadBack_of_readBase fun _ k hk =>
        readBase_word 'b' (by decide +kernel) (by decide +kernel) (by decide +kernel) hk
  | bool b =>
    cases b with
    | false =>
      exact isReadBack_of_readBase fun _ k hk =>
        readBase_word 'f' (by decide +kernel) (by decide +kernel) (by decide +kernel) hk
    | true =>
      exact isReadBack_of_readBase fun _ k hk =>
        readBase_word 't' (by decide +kernel) (by decide +kernel) (by decide +kernel) hk
  | int n => exact isReadBack_of_readBase fun _ k hk => readBase_int n hk
  | str s => exact isReadBack_of_readBase fun _ k _ => readBase_str s
  | emptyObject => exact isReadBack_of_readBase fun _ k _ => rfl
  | named hname => exact isReadBack_of_readBase fun _ k hk => readBase_named hname hk
  | array hne _ ih => exact isReadBack_array hne ih
  | record hne _ ih => exact isReadBack_record hne ih

/-- The text of a readable expression is read as the expression, with unions in unions taken
apart. -/
theorem read_chars {t : TypeExpr} (h : t.IsReadable) : read t.chars = some t.flat := by
  have ht := isFlatOf_flat t h
  have hsteps : (barred t.flat.parts).length < t.chars.length + 1 := by
    rw [ht.barred_parts]
    omega
  have hread := readParts_barred (k := []) ht.parts_ne_nil
    (fun p hp => isReadBack_of_isTerm (ht.isTerm p hp)) hsteps (.inl rfl)
  rw [List.append_nil, ht.barred_parts] at hread
  rw [read, hread]
  simp only [ht.ofParts_parts]

/-- Readable expressions with one text are the same but for unions in unions. -/
theorem flat_eq_of_chars_eq {t u : TypeExpr} (ht : t.IsReadable) (hu : u.IsReadable)
    (h : t.chars = u.chars) : t.flat = u.flat := by
  have hread := read_chars ht
  rw [h, read_chars hu] at hread
  exact (Option.some.inj hread).symm

end TypeExpr
end SchemaTypings.Typescript
