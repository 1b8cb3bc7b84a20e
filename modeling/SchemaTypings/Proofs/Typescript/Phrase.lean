/-
  SchemaTypings.Proofs.Typescript.Phrase

  What stands inside a declaration exports nothing: numbers, JSON values, type expressions and
  property keys.
-/
import SchemaTypings.Proofs.Typescript.Inert

namespace SchemaTypings.Typescript

variable {depth : Nat} {c : Char}

/-! ## Numbers -/

/-- The signs in numbers, and the letters of exponents and of the words for what is infinite or no
number. -/
def numberSigns : List Char := ['-', '+', '.', 'e', 'I', 'n', 'f', 'i', 't', 'y', 'N', 'a']

/-- A character that numbers are written with. -/
def isNumberPart (c : Char) : Bool := c.isDigit || numberSigns.contains c

theorem isPlain_of_isNumberPart (h : isNumberPart c = true) : isPlain c = true := by
  have hsigns : ∀ c ∈ numberSigns, isPlain c = true := List.all_eq_true.mp (by decide)
  rw [isNumberPart, Bool.or_eq_true, List.contains_iff_mem] at h
  rcases h with hdigit | hsign
  · have hx : c ≠ 'x' := by
      rintro rfl
      cases hdigit
    simp [isPlain, isWordPart, Char.isAlphanum, hdigit, hx]
  · exact hsigns c hsign

/-- A character that finite numbers are written with. -/
def isDecimalPart (c : Char) : Bool := c.isDigit || ['-', '+', '.', 'e'].contains c

theorem isNumberPart_of_isDecimalPart (h : isDecimalPart c = true) : isNumberPart c = true := by
  have hsigns : ∀ c ∈ ['-', '+', '.', 'e'], isNumberPart c = true := List.all_eq_true.mp (by decide)
  rw [isDecimalPart, Bool.or_eq_true, List.contains_iff_mem] at h
  rcases h with hdigit | hsign
  · rw [isNumberPart, hdigit, Bool.true_or]
  · exact hsigns c hsign

theorem isDecimalPart_of_isDigit (h : c.isDigit = true) : isDecimalPart c = true := by
  rw [isDecimalPart, h, Bool.true_or]

theorem isDecimalPart_of_mem_toDigits {n : Nat} (h : c ∈ Nat.toDigits 10 n) :
    isDecimalPart c = true :=
  isDecimalPart_of_isDigit (Nat.isDigit_of_mem_toDigits (by decide) (by decide) h)

theorem isDecimalPart_of_mem_padZeros {width : Nat} {digits : List Char}
    (hdigits : ∀ c ∈ digits, isDecimalPart c = true) (h : c ∈ FloatFormat.padZeros width digits) :
    isDecimalPart c = true := by
  rcases List.mem_append.mp h with h | h
  · rw [(List.mem_replicate.mp h).2]
    decide
  · exact hdigits c h

theorem isDecimalPart_of_mem_intChars {n : Int} (h : c ∈ intChars n) : isDecimalPart c = true := by
  rw [intChars] at h
  split at h
  · rcases List.mem_cons.mp h with rfl | h
    · decide
    · exact isDecimalPart_of_mem_toDigits h
  · exact isDecimalPart_of_mem_toDigits h

theorem isDecimalPart_of_mem_positional {digits : List Char}
    (hdigits : ∀ c ∈ digits, isDecimalPart c = true) {leading : Int}
    (h : c ∈ FloatFormat.positional digits leading) : isDecimalPart c = true := by
  have hzero : isDecimalPart '0' = true := by decide
  have hpoint : isDecimalPart '.' = true := by decide
  have hstart : ∀ c ∈ "0.".toList, isDecimalPart c = true := List.all_eq_true.mp (by decide)
  have hzeros : ∀ n, ∀ c ∈ List.replicate n '0', isDecimalPart c = true := fun n c hc =>
    (List.mem_replicate.mp hc).2 ▸ hzero
  rw [FloatFormat.positional] at h
  split at h
  · rcases List.mem_append.mp h with h | h
    · rcases List.mem_append.mp h with h | h
      · exact hstart c h
      · exact hzeros _ c h
    · exact hdigits c h
  · rcases List.mem_append.mp h with h | h
    · rcases List.mem_append.mp h with h | h
      · exact hdigits c (List.mem_of_mem_take h)
      · exact hzeros _ c h
    · rcases List.mem_cons.mp h with rfl | h
      · exact hpoint
      · split at h
        · rw [List.mem_singleton.mp h]
          exact hzero
        · exact hdigits c (List.mem_of_mem_drop h)

theorem isDecimalPart_of_mem_scientific {f : FloatFormat} {digits : List Char}
    (hdigits : ∀ c ∈ digits, isDecimalPart c = true) {leading : Int}
    (h : c ∈ f.scientific digits leading) : isDecimalPart c = true := by
  have hpoint : isDecimalPart '.' = true := by decide
  have he : isDecimalPart 'e' = true := by decide
  have hsign : isDecimalPart (if leading < 0 then '-' else '+') = true := by
    split <;> decide
  unfold FloatFormat.scientific at h
  rcases List.mem_append.mp h with h | h
  · split at h
    · next first second rest =>
      simp only [List.forall_mem_cons] at hdigits
      rcases List.mem_cons.mp h with rfl | h
      · exact hdigits.1
      · rcases List.mem_cons.mp h with rfl | h
        · exact hpoint
        · rcases List.mem_cons.mp h with rfl | h
          · exact hdigits.2.1
          · exact hdigits.2.2 c h
    · exact hdigits c h
  · rcases List.mem_cons.mp h with rfl | h
    · exact he
    · rcases List.mem_cons.mp h with rfl | h
      · exact hsign
      · exact isDecimalPart_of_mem_padZeros (fun c hc => isDecimalPart_of_mem_toDigits hc) h

theorem isDecimalPart_of_mem_decimal {f : FloatFormat} {d : Decimal} (h : c ∈ f.decimal d) :
    isDecimalPart c = true := by
  have hdigits : ∀ c ∈ Text.dropEndWhile (· = '0') (Nat.toDigits 10 d.digits),
      isDecimalPart c = true := by
    intro c hc
    obtain ⟨dropped, heq, -⟩ :=
      Text.dropEndWhile_append_dropped (fun c => decide (c = '0')) (Nat.toDigits 10 d.digits)
    have hmem := List.mem_append_left dropped hc
    rw [← heq] at hmem
    exact isDecimalPart_of_mem_toDigits hmem
  rw [FloatFormat.decimal] at h
  split at h
  · exact isDecimalPart_of_mem_positional hdigits h
  · exact isDecimalPart_of_mem_scientific hdigits h

/-- Whether a number is neither infinite nor none. -/
def isFinite (x : Binary64) : Bool :=
  match x.magnitude with
  | .finite _ _ => true
  | _ => false

theorem isDecimalPart_of_mem_floatChars {x : Binary64} (hfinite : isFinite x = true)
    (h : c ∈ FloatFormat.json.chars x) : isDecimalPart c = true := by
  have hzero : ∀ c ∈ "0.0".toList, isDecimalPart c = true := List.all_eq_true.mp (by decide)
  have hsign : ∀ c ∈ (if x.isNegative then ['-'] else []), isDecimalPart c = true := by
    split
    · exact List.all_eq_true.mp (by decide)
    · simp
  rw [isFinite] at hfinite
  rw [FloatFormat.chars] at h
  split at h
  · next hnan => rw [hnan] at hfinite; cases hfinite
  · next hinfinite => rw [hinfinite] at hfinite; cases hfinite
  · rcases List.mem_append.mp h with h | h
    · exact hsign c h
    · exact hzero c h
  · rcases List.mem_append.mp h with h | h
    · exact hsign c h
    · exact isDecimalPart_of_mem_decimal h

theorem isNumberPart_of_mem_floatChars {x : Binary64} (h : c ∈ FloatFormat.json.chars x) :
    isNumberPart c = true := by
  have hnan : ∀ c ∈ FloatFormat.json.notANumberText, isNumberPart c = true :=
    List.all_eq_true.mp (by decide)
  have hinfinity : ∀ c ∈ FloatFormat.json.infinityText, isNumberPart c = true :=
    List.all_eq_true.mp (by decide)
  have hsign : ∀ c ∈ (if x.isNegative then ['-'] else []), isNumberPart c = true := by
    split
    · exact List.all_eq_true.mp (by decide)
    · simp
  by_cases hfinite : isFinite x = true
  · exact isNumberPart_of_isDecimalPart (isDecimalPart_of_mem_floatChars hfinite h)
  · rw [FloatFormat.chars] at h
    split at h
    · exact hnan c h
    · rcases List.mem_append.mp h with h | h
      · exact hsign c h
      · exact hinfinity c h
    · next hzero => rw [isFinite, hzero] at hfinite; exact absurd rfl hfinite
    · next hsome => rw [isFinite, hsome] at hfinite; exact absurd rfl hfinite

/-! ## JSON values -/

theorem isAlphanum_of_mem_toDigits_sixteen (n : Nat) : ∀ c ∈ Nat.toDigits 16 n,
    c.isAlphanum = true := by
  have hdigit : ∀ d < 16, (Nat.digitChar d).isAlphanum = true := by decide
  induction n using Nat.strongRecOn with
  | _ n ih =>
    rw [Nat.toDigits_eq_if (by decide)]
    split
    · next hlt =>
      rw [List.forall_mem_singleton]
      exact hdigit n hlt
    · next hge =>
      rw [List.forall_mem_append, List.forall_mem_singleton]
      exact ⟨ih _ (by omega), hdigit _ (Nat.mod_lt n (by decide))⟩

theorem ne_of_isAlphanum {d : Char} (h : c.isAlphanum = true) (hd : d.isAlphanum = false) :
    c ≠ d := by
  rintro rfl
  rw [h] at hd
  cases hd

theorem isAlphanum_of_mem_hexDigits {width n : Nat} (h : c ∈ Json.hexDigits width n) :
    c.isAlphanum = true := by
  rcases List.mem_append.mp h with h | h
  · rw [(List.mem_replicate.mp h).2]
    decide
  · exact isAlphanum_of_mem_toDigits_sixteen n c h

/-- The digits of an escape are part of the string. -/
theorem staysQuoted_hexDigits (quote : Quote) (width n : Nat) :
    StaysQuoted quote (Json.hexDigits width n) := by
  have hquote : quote.char.isAlphanum = false := by
    cases quote with
    | _ => decide
  refine staysQuoted_of_ne fun c hc => ?_
  have hletter := isAlphanum_of_mem_hexDigits hc
  exact ⟨ne_of_isAlphanum hletter (by decide), ne_of_isAlphanum hletter hquote⟩

theorem staysQuoted_pair (quote : Quote) (c : Char) : StaysQuoted quote ['\\', c] :=
  staysQuoted_escape fun _ _ => rfl

theorem staysQuoted_escapeUnit (quote : Quote) (n : Nat) :
    StaysQuoted quote (Json.escapeUnit n) :=
  staysQuoted_escape (staysQuoted_hexDigits quote 4 n)

/-- One of two texts, of which the first is an escape. -/
theorem staysQuoted_ite {quote : Quote} {p : Prop} [Decidable p] {escape other : List Char}
    (hescape : StaysQuoted quote escape) (hother : ¬p → StaysQuoted quote other) :
    StaysQuoted quote (if p then escape else other) := by
  by_cases hp : p
  · rw [if_pos hp]
    exact hescape
  · rw [if_neg hp]
    exact hother hp

theorem staysQuoted_escapeChar (c : Char) : StaysQuoted .double (Json.escapeChar c) := by
  refine staysQuoted_ite (staysQuoted_pair _ _) fun hquote => ?_
  refine staysQuoted_ite (staysQuoted_pair _ _) fun hbackslash => ?_
  iterate 5 refine staysQuoted_ite (staysQuoted_pair _ _) fun _ => ?_
  refine staysQuoted_ite (staysQuoted_escapeUnit _ _) fun _ => staysQuoted_of_ne ?_
  rw [List.forall_mem_singleton]
  exact ⟨hbackslash, hquote⟩

theorem staysQuoted_escapeAsciiChar (c : Char) : StaysQuoted .double (Json.escapeAsciiChar c) := by
  rw [Json.escapeAsciiChar]
  split
  · exact staysQuoted_escapeChar c
  · split
    · exact staysQuoted_escapeUnit _ _
    · exact (staysQuoted_escapeUnit _ _).append (staysQuoted_escapeUnit _ _)

theorem settles_quoted (cs : List Char) : Settles depth (Json.quoted cs) :=
  settles_string .double (staysQuoted_flatMap fun c _ => staysQuoted_escapeChar c)

theorem settles_quotedAscii (cs : List Char) : Settles depth (Json.quotedAscii cs) :=
  settles_string .double (staysQuoted_flatMap fun c _ => staysQuoted_escapeAsciiChar c)

theorem settles_comma : Settles depth [',', ' '] :=
  settles_of_isPlainSign (List.all_eq_true.mp (by decide))

theorem settles_colon : Settles depth [':', ' '] :=
  settles_of_isPlainSign (List.all_eq_true.mp (by decide))

mutual
/-- The text of a value is inert. -/
theorem isInert_json : (value : Json) → ∀ depth, IsInert depth value.chars
  | .null, _ => isInert_of_isPlain (List.all_eq_true.mp (by decide))
  | .bool true, _ => isInert_of_isPlain (List.all_eq_true.mp (by decide))
  | .bool false, _ => isInert_of_isPlain (List.all_eq_true.mp (by decide))
  | .int _, _ => isInert_of_isPlain fun _ hc =>
      isPlain_of_isNumberPart (isNumberPart_of_isDecimalPart (isDecimalPart_of_mem_intChars hc))
  | .float _, _ => isInert_of_isPlain fun _ hc =>
      isPlain_of_isNumberPart (isNumberPart_of_mem_floatChars hc)
  | .str s, _ => (settles_quoted s.toList).isInert
  | .arr items, depth => (settles_bracketed (by decide) (by decide) (by decide) (by decide)
      (isInert_items items (depth + 1))).isInert
  | .obj entries, depth => (settles_bracketed (by decide) (by decide) (by decide) (by decide)
      (isInert_entries entries (depth + 1))).isInert

theorem isInert_items : (items : List Json) → ∀ depth, IsInert depth (Json.itemChars items)
  | [], _ => settles_nil.isInert
  | [item], depth => isInert_json item depth
  | item :: next :: rest, depth => (isInert_json item depth).append_isInert (by decide)
      (settles_comma.append_isInert (isInert_items (next :: rest) depth))

theorem isInert_entries : (entries : List (String × Json)) → ∀ depth,
    IsInert depth (Json.entryChars entries)
  | [], _ => settles_nil.isInert
  | [entry], depth => isInert_entry entry depth
  | entry :: next :: rest, depth => (isInert_entry entry depth).append_isInert (by decide)
      (settles_comma.append_isInert (isInert_entries (next :: rest) depth))

theorem isInert_entry : (entry : String × Json) → ∀ depth, IsInert depth (Json.pairChars entry)
  | (key, value), depth => (settles_quoted key.toList).append_isInert
      (settles_colon.append_isInert (isInert_json value depth))
end

/-! ## Type expressions -/

/-- A word other than `export`. -/
structure IsWord (word : List Char) : Prop where
  ne_nil : word ≠ []
  isWordPart : ∀ c ∈ word, isWordPart c = true
  ne_export : word ≠ "export".toList

theorem IsWord.isInert {word : List Char} (h : IsWord word) : IsInert depth word :=
  isInert_word h.isWordPart fun _ => h.ne_export

namespace TypeExpr

theorem settles_bar : Settles depth [' ', '|', ' '] :=
  settles_of_isPlainSign (List.all_eq_true.mp (by decide))

theorem isInert_arrayChars {element : List Char} (h : ∀ depth, IsInert depth element)
    (depth : Nat) : IsInert depth (arrayChars element) := by
  have harray : IsInert depth "Array".toList :=
    isInert_of_isPlain (List.all_eq_true.mp (by decide +kernel))
  have hless : Settles depth ['<'] := settles_of_isPlainSign (List.all_eq_true.mp (by decide))
  have hgreater : Settles depth ['>'] := settles_of_isPlainSign (List.all_eq_true.mp (by decide))
  have hbrackets : Settles depth ['[', ']'] :=
    settles_bracketed (by decide) (by decide) (by decide) (by decide) settles_nil.isInert
  rw [arrayChars]
  split
  · have hopen : Settles depth "Array<".toList := harray.append_settles (by decide) hless
    have hclose := (h depth).append_settles (by decide) hgreater
    rw [List.append_assoc]
    exact (hopen.append hclose).isInert
  · exact ((h depth).append_settles (by decide) hbrackets).isInert

theorem isInert_recordChars {value : List Char} (h : ∀ depth, IsInert depth value) (depth : Nat) :
    IsInert depth ('\x7b' :: " [k: string]: ".toList ++ value ++ [' ', '\x7d']) := by
  have hkey : Settles (depth + 1) ('[' :: "k: string".toList ++ [']']) :=
    settles_bracketed (by decide) (by decide) (by decide) (by decide)
      (isInert_of_isPlain (List.all_eq_true.mp (by decide +kernel)))
  have hblank : Settles (depth + 1) [' '] := settles_of_isPlainSign (List.all_eq_true.mp (by decide))
  have hfront : Settles (depth + 1) " [k: string]: ".toList :=
    (hblank.append hkey).append settles_colon
  have hinside := (hfront.append_isInert (h (depth + 1))).append_settles (by decide) hblank
  have hall := settles_bracketed (by decide : isWordPart '\x7b' = false) (by decide)
    (by decide : isWordPart '\x7d' = false) (by decide) hinside.isInert
  have htext : '\x7b' :: " [k: string]: ".toList ++ value ++ [' ', '\x7d'] =
      '\x7b' :: (" [k: string]: ".toList ++ value ++ [' ']) ++ ['\x7d'] := by simp
  rw [htext]
  exact hall.isInert

mutual
/-- The text of a type expression is inert if the names in it are words. -/
theorem isInert_chars : (t : TypeExpr) → (∀ name ∈ t.names, IsWord name.toList) →
    ∀ depth, IsInert depth t.chars
  | .any, _, _ => isInert_of_isPlain (List.all_eq_true.mp (by decide +kernel))
  | .null, _, _ => isInert_of_isPlain (List.all_eq_true.mp (by decide +kernel))
  | .primitive .string, _, _ => isInert_of_isPlain (List.all_eq_true.mp (by decide +kernel))
  | .primitive .number, _, _ => isInert_of_isPlain (List.all_eq_true.mp (by decide +kernel))
  | .primitive .boolean, _, _ => isInert_of_isPlain (List.all_eq_true.mp (by decide +kernel))
  | .literal value, _, depth => isInert_json value depth
  | .emptyObject, _, _ => (settles_bracketed (by decide) (by decide) (by decide) (by decide)
      settles_nil.isInert).isInert
  | .named _, h, _ => (h _ List.mem_cons_self).isInert
  | .array element, h, depth => isInert_arrayChars (isInert_chars element h) depth
  | .record value, h, depth => isInert_recordChars (isInert_chars value h) depth
  | .union parts, h, depth => isInert_partChars parts h depth

theorem isInert_partChars : (ts : List TypeExpr) → (∀ name ∈ namesOfAll ts, IsWord name.toList) →
    ∀ depth, IsInert depth (Text.joinWith [' ', '|', ' '] (partChars ts))
  | [], _, _ => settles_nil.isInert
  | [t], h, depth => isInert_chars t (fun name hname => h name (by simpa [namesOfAll] using hname)) depth
  | t :: next :: rest, h, depth => by
    rw [namesOfAll, List.forall_mem_append] at h
    have hrest := settles_bar.append_isInert (isInert_partChars (next :: rest) h.2 depth)
    rw [partChars, partChars, Text.joinWith, List.append_assoc]
    exact (isInert_chars t h.1 depth).append_isInert (by decide) hrest
end

end TypeExpr

/-! ## Property keys -/

theorem staysQuoted_escapeKeyChar (c : Char) :
    StaysQuoted .single (Naming.escapeKeyChar ['\''] c) := by
  refine staysQuoted_ite (staysQuoted_pair _ _) fun hquote => ?_
  refine staysQuoted_ite (staysQuoted_pair _ _) fun hbackslash => ?_
  iterate 6 refine staysQuoted_ite (staysQuoted_pair _ _) fun _ => ?_
  iterate 2
    refine staysQuoted_ite (staysQuoted_escape (staysQuoted_of_ne (by simp [Quote.char]))) fun _ => ?_
  refine staysQuoted_ite (staysQuoted_escape (staysQuoted_hexDigits _ _ _)) fun _ =>
    staysQuoted_of_ne ?_
  rw [List.forall_mem_singleton]
  exact ⟨hbackslash, fun heq => hquote (by rw [heq]; rfl)⟩

theorem isWordPart_of_isIdentifierPart (h : Naming.isIdentifierPart c = true) :
    isWordPart c = true := by
  simp only [Naming.isIdentifierPart, Naming.isIdentifierStart, Bool.or_eq_true,
    decide_eq_true_eq] at h
  rcases h with ((h | rfl) | rfl) | h
  · simp [isWordPart, Char.isAlphanum, h]
  · decide
  · decide
  · simp [isWordPart, Char.isAlphanum, h]

/-- A key is inert inside brackets, where `export` is a key like any other. -/
theorem isInert_propertyKey (name : String) :
    IsInert (depth + 1) (Naming.propertyKey name).toList := by
  rw [Naming.propertyKey, String.toList_ofList, Naming.propertyKeyChars]
  split
  · next hname =>
    have hword : ∀ c ∈ Naming.dropFinalNewline name.toList, isWordPart c = true := by
      rw [Naming.isIdentifier] at hname
      split at hname
      · cases hname
      · next first rest hword =>
        rw [Bool.and_eq_true, List.all_eq_true] at hname
        rw [hword, List.forall_mem_cons]
        exact ⟨isWordPart_of_isIdentifierPart (by rw [Naming.isIdentifierPart, hname.1]; rfl),
          fun c hc => isWordPart_of_isIdentifierPart (hname.2 c hc)⟩
    have hinert : IsInert (depth + 1) (Naming.dropFinalNewline name.toList) :=
      isInert_word hword fun h => by cases h
    rw [Naming.dropFinalNewline] at hinert
    split at hinert
    · next hlast =>
      -- The line feed that is let through behind the identifier ends the word.
      have hnewline : Settles (depth + 1) ['\n'] :=
        settles_of_isPlainSign (List.all_eq_true.mp (by decide))
      have hname : name.toList = name.toList.dropLast ++ ['\n'] :=
        (List.dropLast_append_getLast? _ hlast).symm
      rw [hname]
      exact (hinert.append_settles (by decide) hnewline).isInert
    · exact hinert
  · have hkey : Settles (depth + 1) _ := settles_string .single
      (staysQuoted_flatMap fun c (_ : c ∈ name.toList) => staysQuoted_escapeKeyChar c)
    exact hkey.isInert

end SchemaTypings.Typescript
