/-
  SchemaTypings.Proofs.Typescript.Mentions

  The names that are mentioned in the text of a type: its words outside of strings.  Besides the
  names that are used there are fixed words and parts of numbers, so that a declared name is
  mentioned as often as it is used, unless a number is infinite or none, which is written as a word.
-/
import Mathlib.Data.Bool.AllAny
import Mathlib.Data.List.Count
import SchemaTypings.Proofs.Typescript.Environment
import SchemaTypings.Proofs.Typescript.Phrase

namespace SchemaTypings.Typescript

open Naming (isIdentifierPart isIdentifierStart)

/-! ## Scanning -/

/-- Where a scan is: in the code, in a string, or behind a backslash in a string. -/
inductive ScanMode where
  | code
  | string
  | escape
deriving DecidableEq

/-- What a scan has found: the words in front, and what there is of the next. -/
structure Scan where
  mode : ScanMode := .code
  word : List Char := []
  words : List (List Char) := []

namespace Scan

/-- The scan with the word ended, if there is one. -/
def endWord (s : Scan) : Scan :=
  if s.word = [] then s else { s with word := [], words := s.words ++ [s.word] }

/-- The scan one character further on. -/
def step (s : Scan) (c : Char) : Scan :=
  match s.mode with
  | .code =>
    if isIdentifierPart c then { s with word := s.word ++ [c] }
    else if c = '"' then { s.endWord with mode := .string }
    else s.endWord
  | .string =>
    if c = '\\' then { s with mode := .escape }
    else if c = '"' then { s with mode := .code }
    else s
  | .escape => { s with mode := .string }

/-- The scan behind a text. -/
def read (s : Scan) (text : List Char) : Scan := text.foldl step s

@[simp] theorem read_nil (s : Scan) : s.read [] = s := rfl

theorem read_cons (s : Scan) (c : Char) (rest : List Char) :
    s.read (c :: rest) = (s.step c).read rest := rfl

theorem read_append (s : Scan) (text more : List Char) :
    s.read (text ++ more) = (s.read text).read more := List.foldl_append

end Scan

/-- The words of a text outside of strings. -/
def wordsOf (text : List Char) : List (List Char) := ((Scan.read {} text).endWord).words

/-- Whether a text has these words, if it ends before a sign. -/
def Yields (text : List Char) (words : List (List Char)) : Prop :=
  ∀ before c rest, isIdentifierPart c = false →
    Scan.read { words := before } (text ++ c :: rest) =
      Scan.read { words := before ++ words } (c :: rest)

/-- A character between words. -/
def isSign (c : Char) : Bool := !isIdentifierPart c && c ≠ '"'

section
variable {text more : List Char} {words found : List (List Char)} {c : Char}

theorem step_of_isSign (hc : isSign c = true) (before : List (List Char)) (word : List Char) :
    Scan.step { word, words := before } c = Scan.endWord { word, words := before } := by
  simp only [isSign, Bool.and_eq_true, Bool.not_eq_true', decide_eq_true_eq] at hc
  rw [Scan.step]
  dsimp only
  rw [hc.1, if_neg Bool.false_ne_true, if_neg hc.2]

theorem step_of_isIdentifierPart (hc : isIdentifierPart c = true) (before : List (List Char))
    (word : List Char) :
    Scan.step { word, words := before } c = { word := word ++ [c], words := before } := by
  rw [Scan.step]
  dsimp only
  rw [if_pos hc]

theorem yields_nil : Yields [] [] := by
  intro before c rest _
  rw [List.append_nil, List.nil_append]

theorem Yields.append (h : Yields text words) (hc : isIdentifierPart c = false)
    (hmore : Yields (c :: more) found) : Yields (text ++ c :: more) (words ++ found) := by
  intro before d rest hd
  have hrest := hmore (before ++ words) d rest hd
  rw [List.cons_append] at hrest
  rw [List.append_assoc, List.cons_append, h before c _ hc, hrest, List.append_assoc]

/-- A sign in front of a text is no word. -/
theorem Yields.sign (h : Yields text words) (hc : isSign c = true) : Yields (c :: text) words := by
  intro before d rest hd
  rw [List.cons_append, Scan.read_cons, step_of_isSign hc]
  exact h before d rest hd

theorem Yields.signs (h : Yields text words) (signs : List Char)
    (hsigns : signs.all isSign = true) : Yields (signs ++ text) words := by
  induction signs with
  | nil => exact h
  | cons c rest ih =>
    rw [List.all_cons, Bool.and_eq_true] at hsigns
    exact (ih hsigns.2).sign hsigns.1

theorem isIdentifierPart_of_isSign (h : isSign c = true) : isIdentifierPart c = false := by
  simp only [isSign, Bool.and_eq_true, Bool.not_eq_true'] at h
  exact h.1

/-- A text that ends in signs. -/
theorem Yields.append_signs (h : Yields text words) (signs : List Char)
    (hsigns : signs.all isSign = true) : Yields (text ++ signs) words := by
  have hall := yields_nil.signs signs hsigns
  rw [List.append_nil] at hall
  cases signs with
  | nil => rwa [List.append_nil]
  | cons c rest =>
    rw [List.all_cons, Bool.and_eq_true] at hsigns
    have hrest := h.append (isIdentifierPart_of_isSign hsigns.1) hall
    rwa [List.append_nil] at hrest

/-- The step to whatever ends a word. -/
theorem read_endWord (hc : isIdentifierPart c = false) (before : List (List Char))
    {word : List Char} (hne : word ≠ []) (rest : List Char) :
    Scan.read { word, words := before } (c :: rest) =
      Scan.read { words := before ++ [word] } (c :: rest) := by
  rw [Scan.read_cons, Scan.read_cons, Scan.step, Scan.step]
  dsimp only
  rw [hc, if_neg Bool.false_ne_true, if_neg Bool.false_ne_true, Scan.endWord, if_neg hne,
    Scan.endWord, if_pos rfl]

/-- A text of word characters and signs has words made of its word characters. -/
theorem exists_yields_of_no_quote (h : ∀ c ∈ text, c ≠ '"') :
    ∃ words, Yields text words ∧
      ∀ word ∈ words, ∀ c ∈ word, c ∈ text ∧ isIdentifierPart c = true := by
  -- What is there of a word in front of the text is carried on.
  have hcarried : ∀ word : List Char, (∀ c ∈ word, isIdentifierPart c = true) →
      ∃ words, (∀ before c rest, isIdentifierPart c = false →
          Scan.read { word, words := before } (text ++ c :: rest) =
            Scan.read { words := before ++ words } (c :: rest)) ∧
        ∀ w ∈ words, ∀ c ∈ w, (c ∈ word ∨ c ∈ text) ∧ isIdentifierPart c = true := by
    induction text with
    | nil =>
      intro word hword
      by_cases hne : word = []
      · subst hne
        exact ⟨[], fun before c rest _ => by rw [List.nil_append, List.append_nil], by simp⟩
      · refine ⟨[word], fun before c rest hc => read_endWord hc before hne rest, ?_⟩
        rw [List.forall_mem_singleton]
        exact fun c hc => ⟨.inl hc, hword c hc⟩
    | cons c rest ih =>
      intro word hword
      rw [List.forall_mem_cons] at h
      cases hc : isIdentifierPart c with
      | true =>
        obtain ⟨words, hread, hall⟩ := ih h.2 (word ++ [c]) (by
          rw [List.forall_mem_append, List.forall_mem_singleton]
          exact ⟨hword, hc⟩)
        refine ⟨words, fun before d more hd => ?_, fun w hw d hd => ?_⟩
        · rw [List.cons_append, Scan.read_cons, step_of_isIdentifierPart hc, hread before d more hd]
        · obtain ⟨hmem, hpart⟩ := hall w hw d hd
          refine ⟨?_, hpart⟩
          rw [List.mem_append, List.mem_singleton] at hmem
          rw [List.mem_cons]
          tauto
      | false =>
        have hsign : isSign c = true := by simp [isSign, hc, h.1]
        obtain ⟨words, hread, hall⟩ := ih h.2 [] (by simp)
        have hrest : ∀ w ∈ words, ∀ d ∈ w,
            (d ∈ word ∨ d ∈ c :: rest) ∧ isIdentifierPart d = true := fun w hw d hd =>
          ⟨.inr (List.mem_cons_of_mem _ ((hall w hw d hd).1.resolve_left List.not_mem_nil)),
            (hall w hw d hd).2⟩
        by_cases hne : word = []
        · subst hne
          refine ⟨words, fun before d more hd => ?_, hrest⟩
          rw [List.cons_append, Scan.read_cons, step_of_isSign hsign]
          exact hread before d more hd
        · refine ⟨word :: words, fun before d more hd => ?_, ?_⟩
          · have hmore := hread (before ++ [word]) d more hd
            rw [List.append_assoc] at hmore
            rw [List.cons_append, Scan.read_cons, step_of_isSign hsign, Scan.endWord, if_neg hne]
            exact hmore
          · rw [List.forall_mem_cons]
            exact ⟨fun d hd => ⟨.inl hd, hword d hd⟩, hrest⟩
  obtain ⟨words, hread, hall⟩ := hcarried [] (by simp)
  exact ⟨words, hread, fun w hw c hc =>
    ⟨(hall w hw c hc).1.resolve_left List.not_mem_nil, (hall w hw c hc).2⟩⟩

theorem read_of_isIdentifierPart {word : List Char} (hword : ∀ c ∈ word, isIdentifierPart c = true)
    (before : List (List Char)) (front : List Char) :
    Scan.read { word := front, words := before } word =
      { word := front ++ word, words := before } := by
  induction word generalizing front with
  | nil => rw [Scan.read_nil, List.append_nil]
  | cons c rest ih =>
    rw [List.forall_mem_cons] at hword
    rw [Scan.read_cons, step_of_isIdentifierPart hword.1, ih hword.2, List.append_assoc]
    rfl

/-- A word is the word of its own text. -/
theorem yields_word {word : List Char} (hne : word ≠ [])
    (hword : ∀ c ∈ word, isIdentifierPart c = true) : Yields word [word] := by
  intro before c rest hc
  rw [Scan.read_append, read_of_isIdentifierPart hword, List.nil_append]
  exact read_endWord hc before hne rest

/-- The words of a text that yields them. -/
theorem wordsOf_of_yields (h : Yields text words) : wordsOf text = words := by
  have hread := h [] ' ' [] (by decide)
  rw [Scan.read_append, List.nil_append] at hread
  have hstep : (Scan.read {} text).step ' ' = { words } := hread
  -- A scan that is in a string would still be in it behind the space.
  have hmode : (Scan.read {} text).mode = .code := by
    cases hmode : (Scan.read {} text).mode with
    | code => rfl
    | string =>
      have hstring : ((Scan.read {} text).step ' ').mode = .string := by
        rw [Scan.step, hmode]
        exact hmode
      rw [hstep] at hstring
      cases hstring
    | escape =>
      have hstring : ((Scan.read {} text).step ' ').mode = .string := by
        rw [Scan.step, hmode]
      rw [hstep] at hstring
      cases hstring
  have hend : (Scan.read {} text).step ' ' = (Scan.read {} text).endWord := by
    rw [Scan.step, hmode]
    rfl
  rw [wordsOf, ← hend, hstep]

end

/-! ## Strings -/

/-- Whether a text leaves a scan in the string that it is in. -/
def IsPassed (text : List Char) : Prop :=
  ∀ before, Scan.read { mode := .string, words := before } text =
    { mode := .string, words := before }

theorem IsPassed.append {text more : List Char} (h : IsPassed text) (hmore : IsPassed more) :
    IsPassed (text ++ more) := by
  intro before
  rw [Scan.read_append, h, hmore]

theorem isPassed_singleton {c : Char} (hbackslash : c ≠ '\\') (hquote : c ≠ '"') :
    IsPassed [c] := by
  intro before
  rw [Scan.read_cons, Scan.read_nil, Scan.step]
  dsimp only
  rw [if_neg hbackslash, if_neg hquote]

theorem isPassed_of_isAlphanum {text : List Char} (h : ∀ c ∈ text, c.isAlphanum = true) :
    IsPassed text := by
  induction text with
  | nil => exact fun _ => rfl
  | cons c rest ih =>
    rw [List.forall_mem_cons] at h
    have hc : c ≠ '\\' ∧ c ≠ '"' := ⟨ne_of_isAlphanum h.1 rfl, ne_of_isAlphanum h.1 rfl⟩
    exact (isPassed_singleton hc.1 hc.2).append (ih h.2)

theorem isPassed_escapeChar (c : Char) : IsPassed (Json.escapeChar c) := by
  have hpair : ∀ d, IsPassed ['\\', d] := fun _ _ => rfl
  unfold Json.escapeChar
  split
  · exact hpair _
  · next hquote =>
    split
    · exact hpair _
    · next hbackslash =>
      iterate 5
        split
        · exact hpair _
      split
      · exact (hpair 'u').append
          (isPassed_of_isAlphanum fun _ => isAlphanum_of_mem_hexDigits)
      · exact isPassed_singleton hbackslash hquote

/-- There is no word in a string. -/
theorem yields_quoted (cs : List Char) : Yields (Json.quoted cs) [] := by
  have hinside : IsPassed (cs.flatMap Json.escapeChar) := by
    induction cs with
    | nil => exact fun _ => rfl
    | cons c rest ih =>
      rw [List.flatMap_cons]
      exact (isPassed_escapeChar c).append ih
  intro before c rest _
  rw [Json.quoted, List.cons_append, List.cons_append, Scan.read_cons, List.append_assoc,
    Scan.read_append]
  have hopen : Scan.step { words := before } '"' = { mode := .string, words := before } := rfl
  rw [hopen, hinside, List.append_nil]
  rfl

/-! ## Names among the words -/

/-- A word of the type language, the key of an index signature, or part of a number. -/
def isFixedWord (word : List Char) : Bool :=
  typeWords.contains word || word = ['k'] || word.all fun c => c.isDigit || c = 'e'

/-- Whether a text has these words besides fixed ones, if it ends before a sign. -/
def Mentions (text : List Char) (names : List (List Char)) : Prop :=
  ∃ words, Yields text words ∧ words.filter (!isFixedWord ·) = names

section
variable {text more : List Char} {names found : List (List Char)} {c : Char}

theorem Mentions.append (h : Mentions text names) (hc : isIdentifierPart c = false)
    (hmore : Mentions (c :: more) found) : Mentions (text ++ c :: more) (names ++ found) := by
  obtain ⟨words, hwords, rfl⟩ := h
  obtain ⟨rest, hrest, rfl⟩ := hmore
  exact ⟨words ++ rest, hwords.append hc hrest, List.filter_append _ _⟩

theorem Mentions.signs (h : Mentions text names) (signs : List Char)
    (hsigns : signs.all isSign = true) : Mentions (signs ++ text) names := by
  obtain ⟨words, hwords, hnames⟩ := h
  exact ⟨words, hwords.signs signs hsigns, hnames⟩

theorem Mentions.append_signs (h : Mentions text names) (signs : List Char)
    (hsigns : signs.all isSign = true) : Mentions (text ++ signs) names := by
  obtain ⟨words, hwords, hnames⟩ := h
  exact ⟨words, hwords.append_signs signs hsigns, hnames⟩

theorem mentions_nil : Mentions [] [] := ⟨[], yields_nil, rfl⟩

theorem mentions_quoted (cs : List Char) : Mentions (Json.quoted cs) [] :=
  ⟨[], yields_quoted cs, rfl⟩

theorem mentions_fixed {word : List Char} (hword : word ≠ [])
    (hparts : word.all isIdentifierPart = true) (hfixed : isFixedWord word = true) :
    Mentions word [] := by
  refine ⟨[word], yields_word hword (List.all_eq_true.mp hparts), ?_⟩
  rw [List.filter_singleton, hfixed]
  rfl

theorem mentions_decimal (h : ∀ c ∈ text, isDecimalPart c = true) : Mentions text [] := by
  have hsigns : ∀ c ∈ ['-', '+', '.', 'e'], c ≠ '"' ∧ (isIdentifierPart c = true → c = 'e') :=
    List.all_iff_forall_prop.mp (by decide)
  have hparts : ∀ c ∈ text, c ≠ '"' ∧ (isIdentifierPart c = true → c.isDigit = true ∨ c = 'e') := by
    intro c hc
    have hpart := h c hc
    rw [isDecimalPart, Bool.or_eq_true, List.contains_iff_mem] at hpart
    rcases hpart with hdigit | hsign
    · refine ⟨?_, fun _ => .inl hdigit⟩
      rintro rfl
      cases hdigit
    · exact ⟨(hsigns c hsign).1, fun hword => .inr ((hsigns c hsign).2 hword)⟩
  obtain ⟨words, hwords, hall⟩ := exists_yields_of_no_quote fun c hc => (hparts c hc).1
  refine ⟨words, hwords, ?_⟩
  rw [List.filter_eq_nil_iff]
  intro word hword
  have hnumber : (word.all fun c => c.isDigit || c = 'e') = true := by
    rw [List.all_eq_true]
    intro c hc
    rw [Bool.or_eq_true, decide_eq_true_eq]
    exact (hparts c (hall word hword c hc).1).2 (hall word hword c hc).2
  rw [isFixedWord, hnumber, Bool.or_true]
  decide

/-- A text mentions what its words are besides the fixed ones. -/
theorem Mentions.filter_wordsOf (h : Mentions text names) :
    (wordsOf text).filter (!isFixedWord ·) = names := by
  obtain ⟨words, hwords, hnames⟩ := h
  rw [wordsOf_of_yields hwords, hnames]

end

/-! ## JSON values -/

mutual
/-- Whether all numbers in a value are finite. -/
def isFiniteValue : Json → Bool
  | .float x => isFinite x
  | .arr items => areFiniteItems items
  | .obj entries => areFiniteEntries entries
  | _ => true

/-- Whether all numbers in the values are finite. -/
def areFiniteItems : List Json → Bool
  | [] => true
  | item :: rest => isFiniteValue item && areFiniteItems rest

/-- Whether all numbers in the values of the entries are finite. -/
def areFiniteEntries : List (String × Json) → Bool
  | [] => true
  | (_, value) :: rest => isFiniteValue value && areFiniteEntries rest
end

mutual
/-- The text of a value mentions no name. -/
theorem mentions_json : (value : Json) → isFiniteValue value = true → Mentions value.chars []
  | .null, _ => mentions_fixed (by decide) (by decide) (by decide +kernel)
  | .bool true, _ => mentions_fixed (by decide) (by decide) (by decide +kernel)
  | .bool false, _ =>
    mentions_fixed (by decide) (by decide) (by decide +kernel)
  | .int _, _ => mentions_decimal fun _ hc => isDecimalPart_of_mem_intChars hc
  | .float _, h => mentions_decimal fun _ hc => isDecimalPart_of_mem_floatChars h hc
  | .str s, _ => mentions_quoted s.toList
  | .arr items, h =>
    ((mentions_items items h).signs ['['] (by decide)).append_signs [']'] (by decide)
  | .obj entries, h =>
    ((mentions_entries entries h).signs ['\x7b'] (by decide)).append_signs ['\x7d'] (by decide)

theorem mentions_items : (items : List Json) → areFiniteItems items = true →
    Mentions (Json.itemChars items) []
  | [], _ => mentions_nil
  | [item], h => by
    rw [areFiniteItems, Bool.and_eq_true] at h
    exact mentions_json item h.1
  | item :: next :: rest, h => by
    rw [areFiniteItems, Bool.and_eq_true] at h
    have hrest := (mentions_items (next :: rest) h.2).signs [',', ' '] (by decide)
    exact (mentions_json item h.1).append (by decide) hrest

theorem mentions_entries : (entries : List (String × Json)) → areFiniteEntries entries = true →
    Mentions (Json.entryChars entries) []
  | [], _ => mentions_nil
  | [(key, value)], h => by
    rw [areFiniteEntries, Bool.and_eq_true] at h
    exact mentions_entry key value h.1
  | (key, value) :: next :: rest, h => by
    rw [areFiniteEntries, Bool.and_eq_true] at h
    have hrest := (mentions_entries (next :: rest) h.2).signs [',', ' '] (by decide)
    exact (mentions_entry key value h.1).append (by decide) hrest

theorem mentions_entry (key : String) : (value : Json) → isFiniteValue value = true →
    Mentions (Json.pairChars (key, value)) []
  | value, h => by
    have hvalue := (mentions_json value h).signs [':', ' '] (by decide)
    exact (mentions_quoted key.toList).append (by decide) hvalue
end

/-! ## Type expressions -/

/-- A name that is told apart from fixed words. -/
structure IsDistinct (name : String) : Prop where
  ne_nil : name.toList ≠ []
  isIdentifierPart : ∀ c ∈ name.toList, isIdentifierPart c = true
  not_fixed : isFixedWord name.toList = false

theorem IsDistinct.mentions {name : String} (h : IsDistinct name) :
    Mentions name.toList [name.toList] := by
  refine ⟨[name.toList], yields_word h.ne_nil h.isIdentifierPart, ?_⟩
  rw [List.filter_singleton, h.not_fixed]
  rfl

namespace TypeExpr

mutual
/-- Whether the names in an expression are told apart from what else it is written with. -/
def IsLegible : TypeExpr → Prop
  | .named name => IsDistinct name
  | .literal value => isFiniteValue value = true
  | .array t => t.IsLegible
  | .record t => t.IsLegible
  | .union ts => AllLegible ts
  | _ => True

/-- Whether this holds of all the expressions. -/
def AllLegible : List TypeExpr → Prop
  | [] => True
  | t :: rest => t.IsLegible ∧ AllLegible rest
end

theorem mentions_arrayChars {element : List Char} {names : List (List Char)}
    (h : Mentions element names) : Mentions (arrayChars element) names := by
  have harray : Mentions "Array".toList [] :=
    mentions_fixed (by decide) (by decide +kernel) (by decide +kernel)
  rw [arrayChars]
  split
  · have helement := (h.signs ['<'] (by decide)).append_signs ['>'] (by decide)
    exact harray.append (by decide) helement
  · exact h.append_signs ['[', ']'] (by decide)

theorem mentions_recordChars {value : List Char} {names : List (List Char)}
    (h : Mentions value names) :
    Mentions ('\x7b' :: " [k: string]: ".toList ++ value ++ [' ', '\x7d']) names := by
  have hkey : Mentions ['k'] [] :=
    mentions_fixed (by decide) (by decide) (by decide +kernel)
  have hstring : Mentions "string".toList [] :=
    mentions_fixed (by decide) (by decide +kernel) (by decide +kernel)
  -- From the end to the front: the value, the type of the key, the key.
  have hvalue := (h.append_signs [' ', '\x7d'] (by decide)).signs [']', ':', ' '] (by decide)
  have htype := (hstring.append (by decide) hvalue).signs [':', ' '] (by decide)
  rw [List.append_assoc]
  exact (hkey.append (by decide) htype).signs ['\x7b', ' ', '['] (by decide)

mutual
/-- The text of an expression mentions the names in it, in order, and no others. -/
theorem mentions_chars : (t : TypeExpr) → t.IsLegible → Mentions t.chars (t.names.map String.toList)
  | .any, _ => mentions_fixed (by decide) (by decide +kernel) (by decide +kernel)
  | .null, _ =>
    mentions_fixed (by decide) (by decide +kernel) (by decide +kernel)
  | .primitive .string, _ =>
    mentions_fixed (by decide) (by decide +kernel) (by decide +kernel)
  | .primitive .number, _ =>
    mentions_fixed (by decide) (by decide +kernel) (by decide +kernel)
  | .primitive .boolean, _ =>
    mentions_fixed (by decide) (by decide +kernel) (by decide +kernel)
  | .literal value, h => mentions_json value h
  | .emptyObject, _ =>
    mentions_nil.append_signs ['\x7b', '\x7d'] (by decide)
  | .named _, h => h.mentions
  | .array element, h => mentions_arrayChars (mentions_chars element h)
  | .record value, h => mentions_recordChars (mentions_chars value h)
  | .union parts, h => mentions_partChars parts h

theorem mentions_partChars : (ts : List TypeExpr) → AllLegible ts →
    Mentions (Text.joinWith [' ', '|', ' '] (partChars ts)) ((namesOfAll ts).map String.toList)
  | [], _ => mentions_nil
  | [t], h => by
    rw [namesOfAll, namesOfAll, List.append_nil]
    exact mentions_chars t h.1
  | t :: next :: rest, h => by
    have hrest := (mentions_partChars (next :: rest) h.2).signs [' ', '|', ' '] (by decide)
    rw [partChars, partChars, Text.joinWith, List.append_assoc, namesOfAll, List.map_append]
    exact (mentions_chars t h.1).append (by decide) hrest
end

/-- The words in the text of an expression, those in strings left out. -/
def mentions (t : TypeExpr) : List String := (wordsOf t.chars).map String.ofList

variable {t u : TypeExpr}

/-- A name is mentioned in an expression as often as it is used. -/
theorem count_mentions (h : t.IsLegible) {name : String} (hname : IsDistinct name) :
    t.mentions.count name = t.names.count name := by
  have hmentions := (mentions_chars t h).filter_wordsOf
  calc t.mentions.count name = (wordsOf t.chars).count name.toList := by
        rw [mentions, ← List.count_map_of_injective _ _ (fun _ _ => String.ofList_injective),
          String.ofList_toList]
    _ = ((wordsOf t.chars).filter (!isFixedWord ·)).count name.toList := by
        rw [List.count_filter (by rw [hname.not_fixed]; rfl)]
    _ = t.names.count name := by
        rw [hmentions, List.count_map_of_injective _ _ fun _ _ => String.toList_injective]

/-- Expressions with one text use the same names. -/
theorem names_eq_of_chars_eq (ht : t.IsLegible) (hu : u.IsLegible) (h : t.chars = u.chars) :
    t.names = u.names := by
  have hmentions := (mentions_chars t ht).filter_wordsOf
  rw [h, (mentions_chars u hu).filter_wordsOf] at hmentions
  exact List.map_injective_iff.mpr (fun _ _ => String.toList_injective) hmentions.symm

end TypeExpr

end SchemaTypings.Typescript
