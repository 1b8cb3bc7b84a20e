/-
  SchemaTypings.Proofs.Schema.Pointer

  Locations read as pointers.  A location writes its steps one behind the other as they are; a
  pointer is cut at its slashes and each piece is unescaped.  Both are the same steps exactly if no
  step is empty, has a slash in it or a tilde that is read as an escape; then the pointer leads to
  the value at the location.
-/
import SchemaTypings.Proofs.Json.Reading
import SchemaTypings.Proofs.Naming.Identifier
import SchemaTypings.Proofs.Text.Pieces
import SchemaTypings.Schema.Location
import SchemaTypings.Schema.Pointer
import Mathlib.Algebra.Group.Nat.Defs

namespace SchemaTypings

/-! ## Values inside a value -/

/-- The steps that lead from a value to one inside it: keys of objects and indices of lists. -/
inductive Leads : Json → List String → Json → Prop where
  | here (value : Json) : Leads value [] value
  | key {entries : Entries Json} {key : String} {value target : Json} {steps : List String}
      (hvalue : entries.get? key = some value) (hrest : Leads value steps target) :
      Leads (.obj entries) (key :: steps) target
  | item {items : List Json} {index : Nat} {value target : Json} {steps : List String}
      (hvalue : items[index]? = some value) (hrest : Leads value steps target) :
      Leads (.arr items) (natText index :: steps) target

namespace Leads

theorem trans {a b c : Json} {front back : List String} (hab : Leads a front b)
    (hbc : Leads b back c) : Leads a (front ++ back) c := by
  induction hab with
  | here value => exact hbc
  | key hvalue _ ih => exact .key hvalue (ih hbc)
  | item hvalue _ ih => exact .item hvalue (ih hbc)

theorem of_get? {entries : Entries Json} {key : String} {value : Json}
    (h : entries.get? key = some value) : Leads (.obj entries) [key] value :=
  .key h (.here value)

theorem of_getElem? {items : List Json} {index : Nat} {value : Json}
    (h : items[index]? = some value) : Leads (.arr items) [natText index] value :=
  .item h (.here value)

end Leads

theorem hasDistinctKeys_of_mem_items {items : List Json} (h : Json.AllHaveDistinctKeys items)
    {item : Json} (hitem : item ∈ items) : item.HasDistinctKeys := by
  induction items with
  | nil => cases hitem
  | cons first rest ih =>
    rw [Json.AllHaveDistinctKeys] at h
    rcases List.mem_cons.mp hitem with rfl | hitem
    · exact h.1
    · exact ih h.2 hitem

theorem hasDistinctKeys_of_mem_entries {entries : Entries Json}
    (h : Json.EntriesHaveDistinctKeys entries) {key : String} {value : Json}
    (hvalue : (key, value) ∈ entries) : value.HasDistinctKeys := by
  induction entries with
  | nil => cases hvalue
  | cons first rest ih =>
    obtain ⟨k, v⟩ := first
    rw [Json.EntriesHaveDistinctKeys, Json.EntryHasDistinctKeys] at h
    rcases List.mem_cons.mp hvalue with heq | hvalue
    · cases heq
      exact h.1
    · exact ih h.2 hvalue

theorem Leads.hasDistinctKeys {value target : Json} {steps : List String}
    (h : Leads value steps target) (hkeys : value.HasDistinctKeys) : target.HasDistinctKeys := by
  induction h with
  | here value => exact hkeys
  | key hvalue _ ih =>
    rw [Json.HasDistinctKeys] at hkeys
    exact ih (hasDistinctKeys_of_mem_entries hkeys.2 (Entries.mem_of_get? hvalue))
  | item hvalue _ ih =>
    rw [Json.HasDistinctKeys] at hkeys
    exact ih (hasDistinctKeys_of_mem_items hkeys (List.mem_of_getElem? hvalue))

namespace Pointer

/-! ## Tokens -/

/-- Whether a step is read back from a pointer in which it is written as it is. -/
def IsToken (step : List Char) : Prop :=
  step ≠ [] ∧ '/' ∉ step ∧ unescape step = step

/-- The pieces of a text between its slashes that hold something. -/
def pieces (cs : List Char) : List (List Char) := (Text.splitAt '/' cs).filter (· ≠ [])

/-- The tokens that a step is read as. -/
def tokensOf (step : List Char) : List (List Char) := (pieces step).map unescape

theorem pieces_append_slash (step rest : List Char) :
    pieces (step ++ '/' :: rest) = pieces step ++ pieces rest := by
  rw [pieces, Text.splitAt_append_cons, List.filter_append]
  rfl

theorem pieces_slash (rest : List Char) : pieces ('/' :: rest) = pieces rest :=
  pieces_append_slash [] rest

/-- Steps behind a slash each are cut on their own. -/
theorem pieces_steps (steps : List (List Char)) :
    pieces (steps.flatMap fun step => '/' :: step) = steps.flatMap pieces := by
  induction steps with
  | nil => rfl
  | cons step rest ih =>
    rw [List.flatMap_cons, List.flatMap_cons, List.cons_append, pieces_slash, ← ih]
    cases rest with
    | nil => rw [List.flatMap_nil, List.append_nil]; exact (List.append_nil _).symm
    | cons next more =>
      rw [List.flatMap_cons, List.cons_append, pieces_append_slash, pieces_slash]

theorem tokens_chars (location : Location) :
    tokens location.chars = location.steps.flatMap fun step => tokensOf step.toList := by
  have hpieces := pieces_steps (location.steps.map String.toList)
  rw [List.flatMap_map, List.flatMap_map] at hpieces
  show (pieces (location.steps.flatMap fun step => '/' :: step.toList)).map unescape = _
  rw [hpieces, List.map_flatMap]
  rfl

theorem tokensOf_of_isToken {step : List Char} (h : IsToken step) : tokensOf step = [step] := by
  obtain ⟨hne, hslash, hescape⟩ := h
  rw [tokensOf, pieces, Text.splitAt_of_not_mem hslash]
  simp [hne, hescape]

/-- Reading an escape makes a text shorter. -/
theorem unescape_eq_or_length_lt (cs : List Char) :
    unescape cs = cs ∨ (unescape cs).length < cs.length := by
  induction cs using unescape.induct with
  | case1 rest ih | case2 rest ih =>
    right
    rw [unescape]
    rcases ih with heq | hlt
    · simp [heq]
    · simp only [List.length_cons]
      omega
  | case3 c rest _ _ ih =>
    rw [unescape]
    rcases ih with heq | hlt
    · exact .inl (by rw [heq])
    · exact .inr (by simp only [List.length_cons]; omega)
    all_goals assumption
  | case4 => exact .inl rfl

/-- How much stands in a row of texts: two for each character and one for each text. -/
def weight (texts : List (List Char)) : Nat := 2 * texts.flatten.length + texts.length

theorem weight_append (texts more : List (List Char)) :
    weight (texts ++ more) = weight texts + weight more := by
  simp only [weight, List.flatten_append, List.length_append]
  omega

theorem weight_cons (text : List Char) (rest : List (List Char)) :
    weight (text :: rest) = 2 * text.length + 1 + weight rest := by
  simp only [weight, List.flatten_cons, List.length_append, List.length_cons]
  omega

theorem weight_map_unescape (texts : List (List Char)) :
    texts.map unescape = texts ∨ weight (texts.map unescape) < weight texts := by
  induction texts with
  | nil => exact .inl rfl
  | cons text rest ih =>
    rw [List.map_cons, weight_cons, weight_cons]
    rcases unescape_eq_or_length_lt text with heq | hlt <;> rcases ih with hrest | hrest
    · exact .inl (by rw [heq, hrest])
    · rw [heq]; omega
    · rw [hrest]; omega
    · omega

/-- A cut takes a character away and gives one more text. -/
theorem weight_splitAt (cs : List Char) :
    weight (Text.splitAt '/' cs) + cs.count '/' = 2 * cs.length + 1 := by
  induction cs with
  | nil => rfl
  | cons c rest ih =>
    obtain ⟨piece, more, hrest⟩ := List.exists_cons_of_ne_nil (Text.splitAt_ne_nil '/' rest)
    by_cases hc : c = '/'
    · subst hc
      rw [Text.splitAt_sep_cons, weight_cons, List.count_cons_self]
      simp only [List.length_cons, List.length_nil]
      omega
    · rw [hrest, weight_cons] at ih
      rw [Text.splitAt_cons_of_ne hc hrest, weight_cons, List.count_cons_of_ne hc]
      simp only [List.length_cons]
      omega

theorem weight_pieces_le (cs : List Char) : weight (pieces cs) ≤ weight (Text.splitAt '/' cs) := by
  have hlength : (pieces cs).length ≤ (Text.splitAt '/' cs).length := List.length_filter_le _ _
  have hflat : (pieces cs).flatten = (Text.splitAt '/' cs).flatten := List.flatten_filter_ne_nil
  rw [weight, weight, hflat]
  omega

/-- A step that is no token is read as something that is less. -/
theorem isToken_or_weight_lt (step : List Char) :
    IsToken step ∨ weight (tokensOf step) < weight [step] := by
  have hone : weight [step] = 2 * step.length + 1 := weight_cons step []
  have hcut := weight_splitAt step
  have hle := weight_pieces_le step
  by_cases hslash : '/' ∈ step
  · -- A slash is lost.
    right
    have hpos : 0 < step.count '/' := List.count_pos_iff.mpr hslash
    rcases weight_map_unescape (pieces step) with heq | hlt
    · rw [tokensOf, heq]
      omega
    · rw [tokensOf]
      omega
  · by_cases hempty : step = []
    · subst hempty
      exact .inr (by decide)
    · have hpieces : pieces step = [step] := by
        rw [pieces, Text.splitAt_of_not_mem hslash]
        simp [hempty]
      rw [tokensOf, hpieces]
      rcases weight_map_unescape [step] with heq | hlt
      · exact .inl ⟨hempty, hslash, List.singleton_inj.mp heq⟩
      · exact .inr hlt

/-- A location is read back as a pointer exactly if all its steps are tokens. -/
theorem tokens_chars_eq_iff (location : Location) :
    tokens location.chars = location.steps.map String.toList ↔
      ∀ step ∈ location.steps, IsToken step.toList := by
  rw [tokens_chars]
  constructor
  · intro h
    -- What is read has all the weight of the steps, and no step gives more than its own.
    have hless : ∀ steps : List String, (∀ step ∈ steps, IsToken step.toList) ∨
        weight (steps.flatMap fun step => tokensOf step.toList) <
          weight (steps.map String.toList) := by
      intro steps
      induction steps with
      | nil => exact .inl (by simp)
      | cons step rest ih =>
        rw [List.forall_mem_cons, List.flatMap_cons, List.map_cons, weight_append,
          ← List.singleton_append, weight_append]
        rcases isToken_or_weight_lt step.toList with htoken | hlt
        · rw [tokensOf_of_isToken htoken]
          rcases ih with hrest | hrest
          · exact .inl ⟨htoken, hrest⟩
          · omega
        · right
          rcases ih with hrest | hrest
          · have heq : (rest.flatMap fun step => tokensOf step.toList) =
                rest.map String.toList := by
              rw [List.map_eq_flatMap]
              exact List.flatMap_congr fun step hstep => tokensOf_of_isToken (hrest step hstep)
            rw [heq]
            omega
          · omega
    rcases hless location.steps with htokens | hlt
    · exact htokens
    · rw [h] at hlt
      exact absurd hlt (Nat.lt_irrefl _)
  · intro h
    rw [List.map_eq_flatMap]
    exact List.flatMap_congr fun step hstep => tokensOf_of_isToken (h step hstep)

/-! ## Following a pointer -/

theorem isAscii_of_isDigit {c : Char} (h : c.isDigit = true) : Text.isAscii c = true :=
  Naming.isAscii_of_isAlphanum (by simp [Char.isAlphanum, h])

theorem decimalValue?_of_isDigit {c : Char} (h : c.isDigit = true) :
    Text.decimalValue? c = some (c.toNat - '0'.toNat) := by
  rw [Text.decimalValue?, if_pos (isAscii_of_isDigit h), if_pos h]

theorem foldl_decimalValue? {digits : List Char} (h : ∀ c ∈ digits, c.isDigit = true) (n : Nat) :
    digits.foldl (fun value? c => do return 10 * (← value?) + (← Text.decimalValue? c)) (some n) =
      some (Nat.ofDigitChars 10 digits n) := by
  induction digits generalizing n with
  | nil => rfl
  | cons c rest ih =>
    rw [List.forall_mem_cons] at h
    rw [List.foldl_cons, decimalValue?_of_isDigit h.1, Nat.ofDigitChars_eq_foldl, List.foldl_cons,
      ← Nat.ofDigitChars_eq_foldl]
    exact ih h.2 _

theorem numberOfDigits?_toDigits (n : Nat) : Text.numberOfDigits? (Nat.toDigits 10 n) = some n := by
  rw [Text.numberOfDigits?, foldl_decimalValue? fun c hc => Json.isDigit_of_mem_toDigits hc,
    Nat.ofDigitChars_ten_toDigits]

theorem index?_natText {index : Nat} (h : index < 10 ^ Json.maxIntegerDigits) :
    index? (natText index).toList = .ok (some index) := by
  have hdigits : (Nat.toDigits 10 index).all Text.isAnyDigit = true := by
    rw [List.all_eq_true]
    intro c hc
    have hdigit := Json.isDigit_of_mem_toDigits hc
    rw [Text.isAnyDigit, if_pos (isAscii_of_isDigit hdigit)]
    exact hdigit
  have hshort : ¬(Nat.toDigits 10 index).length > Json.maxIntegerDigits := by
    rw [Nat.not_lt, Nat.length_toDigits_le_iff (by decide) (by decide)]
    exact h
  rw [index?, Naming.toList_natText, if_pos ⟨Nat.toDigits_ne_nil, hdigits⟩, if_neg hshort,
    numberOfDigits?_toDigits]

/-- What is passed on from lists and objects to their values holds at the end of the tokens. -/
theorem walk_induction {p : Json → Prop}
    (hitem : ∀ items value, p (.arr items) → value ∈ items → p value)
    (hvalue : ∀ entries key value, p (.obj entries) → (key, value) ∈ entries → p value)
    {root target : Json} {tokens : List (List Char)} (h : walk root tokens = .ok (some target))
    (hroot : p root) : p target := by
  -- one token leads to an entry of an object or to an item of a list
  induction tokens generalizing root with
  | nil =>
    cases h
    exact hroot
  | cons token rest ih =>
    rw [walk] at h
    cases root with
    | obj entries =>
      rw [step] at h
      cases hget : Entries.get? entries (String.ofList token) with
      | none => rw [hget] at h; cases h
      | some value =>
        rw [hget] at h
        exact ih h (hvalue _ _ _ hroot (Entries.mem_of_get? hget))
    | arr items =>
      rw [step] at h
      cases hindex : index? token with
      | error e => rw [hindex] at h; cases h
      | ok i? =>
        rw [hindex, Except.map] at h
        cases hat : i?.bind fun i => items[i]? with
        | none => rw [hat] at h; cases h
        | some value =>
          rw [hat] at h
          obtain ⟨i, -, hi⟩ := Option.bind_eq_some_iff.mp hat
          exact ih h (hitem _ _ hroot (List.mem_of_getElem? hi))
    | _ => cases h

theorem hasDistinctKeys_of_walk {root target : Json} {tokens : List (List Char)}
    (h : walk root tokens = .ok (some target)) (hroot : root.HasDistinctKeys) :
    target.HasDistinctKeys := by
  refine walk_induction (fun items value hitems hmem => ?_) (fun entries key value hkeys hmem => ?_)
    h hroot
  · rw [Json.HasDistinctKeys] at hitems
    exact hasDistinctKeys_of_mem_items hitems hmem
  · rw [Json.HasDistinctKeys] at hkeys
    exact hasDistinctKeys_of_mem_entries hkeys.2 hmem

/-- The steps to a value, read as tokens, lead to it.  An index must be short enough to be read,
which it is in every list that has less members than that. -/
theorem walk_of_leads {value target : Json} {steps : List String} (h : Leads value steps target)
    (hsize : ∀ front items, Leads value front (.arr items) →
      items.length ≤ 10 ^ Json.maxIntegerDigits) :
    walk value (steps.map String.toList) = .ok (some target) := by
  induction h with
  | here value => rfl
  | @key entries key value target steps hvalue _ ih =>
    have hstep : step (.obj entries) key.toList = .ok (some value) := by
      rw [step, String.ofList_toList, hvalue]
    rw [List.map_cons, walk, hstep]
    exact ih fun front items hitems => hsize _ _ (.key hvalue hitems)
  | @item items index value target steps hvalue _ ih =>
    have hlt : index < items.length := (List.getElem?_eq_some_iff.mp hvalue).1
    have hindex := index?_natText (Nat.lt_of_lt_of_le hlt (hsize _ _ (.here _)))
    have hstep : step (.arr items) (natText index).toList = .ok (some value) := by
      rw [step, hindex, ← hvalue]
      rfl
    rw [List.map_cons, walk, hstep]
    exact ih fun front items hitems => hsize _ _ (.item hvalue hitems)

/-- A location whose steps are all tokens is a pointer to the value there. -/
theorem resolve_text_of_leads {value target : Json} {location : Location}
    (h : Leads value location.steps target)
    (htokens : ∀ step ∈ location.steps, IsToken step.toList)
    (hsize : ∀ front items, Leads value front (.arr items) →
      items.length ≤ 10 ^ Json.maxIntegerDigits) :
    resolve value location.text = .ok (some target) := by
  rw [resolve, Location.text, String.toList_ofList, (tokens_chars_eq_iff location).mpr htokens]
  exact walk_of_leads h hsize

end Pointer
end SchemaTypings
