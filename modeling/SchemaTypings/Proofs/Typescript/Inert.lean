/-
  SchemaTypings.Proofs.Typescript.Inert

  Texts that export nothing wherever they stand: words, strings, brackets around such texts, numbers,
  JSON values, type expressions and property keys.

  A text that ends in a word is over only when the next sign is read.  So there are two notions:
  `Settles` for a text right behind which the reader is where it was, and `IsInert` for one of which
  nothing is left when a sign follows.
-/
import SchemaTypings.Proofs.Typescript.Environment
import SchemaTypings.Proofs.Typescript.TopLevel

namespace SchemaTypings.Typescript

open Reader (read_append read_cons read_nil)

/-! ## Reading on -/

/-- A reader between two words, outside comments and strings, with nothing of a declaration read. -/
def settled (depth : Nat) (names : List String) : Reader := { depth, names }

/-- Whether the reader is where it was right behind the text. -/
def Settles (depth : Nat) (text : List Char) : Prop :=
  ∀ names, (settled depth names).read text = settled depth names

/-- Whether nothing is left of the text when it ends before a sign. -/
def IsInert (depth : Nat) (text : List Char) : Prop :=
  ∀ names c rest, isWordPart c = false →
    (settled depth names).read (text ++ c :: rest) = (settled depth names).read (c :: rest)

section
variable {depth : Nat} {text more : List Char} {c : Char}

theorem settles_nil : Settles depth [] := fun _ => rfl

theorem Settles.append (h : Settles depth text) (hmore : Settles depth more) :
    Settles depth (text ++ more) := by
  intro names
  rw [read_append, h, hmore]

theorem Settles.isInert (h : Settles depth text) : IsInert depth text := by
  intro names c rest _
  rw [read_append, h]

theorem Settles.append_isInert (h : Settles depth text) (hmore : IsInert depth more) :
    IsInert depth (text ++ more) := by
  intro names c rest hc
  rw [List.append_assoc, read_append, h]
  exact hmore names c rest hc

theorem IsInert.append_settles (h : IsInert depth text) (hc : isWordPart c = false)
    (hmore : Settles depth (c :: more)) : Settles depth (text ++ c :: more) := by
  intro names
  rw [h names c more hc, hmore]

theorem IsInert.append_isInert (h : IsInert depth text) (hc : isWordPart c = false)
    (hmore : IsInert depth (c :: more)) : IsInert depth (text ++ c :: more) := by
  intro names d rest hd
  rw [List.append_assoc, List.cons_append, h names c _ hc]
  exact hmore names d rest hd

theorem settles_flatMap {α : Type} {f : α → List Char} {as : List α}
    (h : ∀ a ∈ as, Settles depth (f a)) : Settles depth (as.flatMap f) := by
  induction as with
  | nil => exact settles_nil
  | cons a rest ih =>
    rw [List.forall_mem_cons] at h
    rw [List.flatMap_cons]
    exact h.1.append (ih h.2)

/-! ## Signs -/

theorem step_code {r : Reader} (hmode : r.mode = .code) (c : Char) : r.step c = r.codeStep c := by
  rw [Reader.step, hmode]

/-- A character of the code that belongs to no word ends the word in front of it. -/
theorem step_of_sign {r : Reader} (hmode : r.mode = .code) (hc : isWordPart c = false) :
    r.step c = r.endWord.sign (signOf c) := by
  rw [step_code hmode, Reader.codeStep, hc, if_neg Bool.false_ne_true]

theorem step_of_isWordPart {r : Reader} (hmode : r.mode = .code) (hc : isWordPart c = true) :
    r.step c = { r with word := r.word ++ [c] } := by
  rw [step_code hmode, Reader.codeStep, hc, if_pos rfl]

theorem settled_step (hc : isWordPart c = false) (names : List String) :
    (settled depth names).step c = (settled depth names).sign (signOf c) :=
  step_of_sign rfl hc

/-- Signs that neither open nor close anything and begin no comment or string. -/
def isPlainSign (c : Char) : Bool :=
  !isWordPart c && (signOf c = .blank || signOf c = .other)

theorem sign_settled_of_isPlainSign (hc : isPlainSign c = true) (names : List String) :
    (settled depth names).sign (signOf c) = settled depth names := by
  simp only [isPlainSign, Bool.and_eq_true, Bool.or_eq_true, decide_eq_true_eq] at hc
  rcases hc.2 with hsign | hsign
  · rw [hsign]
    rfl
  · rw [hsign]
    rfl

theorem settles_of_isPlainSign (h : ∀ c ∈ text, isPlainSign c = true) : Settles depth text := by
  intro names
  induction text with
  | nil => rfl
  | cons c rest ih =>
    rw [List.forall_mem_cons] at h
    have hword : isWordPart c = false := by
      simpa [isPlainSign] using (Bool.and_eq_true_iff.mp h.1).1
    rw [read_cons, settled_step hword, sign_settled_of_isPlainSign h.1, ih h.2]

/-- Brackets around an inert text. -/
theorem settles_bracketed {opening closing : Char} (hopening : isWordPart opening = false)
    (hopens : signOf opening = .opening) (hclosing : isWordPart closing = false)
    (hcloses : signOf closing = .closing) (h : IsInert (depth + 1) text) :
    Settles depth (opening :: text ++ [closing]) := by
  intro names
  have hinside : (settled depth names).step opening = settled (depth + 1) names := by
    rw [settled_step hopening, hopens]
    rfl
  rw [List.cons_append, read_cons, hinside, h names closing [] hclosing, read_cons,
    settled_step hclosing, hcloses]
  rfl

/-! ## Words -/

theorem read_word {word : List Char} (hword : ∀ c ∈ word, isWordPart c = true) {r : Reader}
    (hmode : r.mode = .code) : r.read word = { r with word := r.word ++ word } := by
  induction word generalizing r with
  | nil => simp
  | cons c rest ih =>
    rw [List.forall_mem_cons] at hword
    have hrest := ih hword.2 (r := { r with word := r.word ++ [c] }) hmode
    rw [read_cons, step_of_isWordPart hmode hword.1, hrest, List.append_assoc]
    rfl

/-- Any word but `export` is over without a trace. -/
theorem endWord_of_nothing {r : Reader} (hstage : r.stage = .nothing)
    (hword : r.depth = 0 → r.word ≠ "export".toList) : r.endWord = { r with word := [] } := by
  by_cases hnil : r.word = []
  · rw [Reader.endWord, if_pos hnil, ← hnil]
  · have hother : ¬(r.depth = 0 ∧ r.word = "export".toList) := fun h => hword h.1 h.2
    rw [Reader.endWord, if_neg hnil, hstage]
    dsimp only
    rw [if_neg hother, ← hstage]

theorem endWord_settled {word : List Char} (hword : depth = 0 → word ≠ "export".toList)
    (names : List String) :
    Reader.endWord { settled depth names with word } = settled depth names :=
  endWord_of_nothing rfl hword

theorem isInert_word {word : List Char} (hword : ∀ c ∈ word, isWordPart c = true)
    (hexport : depth = 0 → word ≠ "export".toList) : IsInert depth word := by
  intro names c rest hc
  have hread : (settled depth names).read word = { settled depth names with word } :=
    read_word hword rfl
  rw [read_append, hread, read_cons, read_cons, step_of_sign rfl hc, endWord_settled hexport,
    settled_step hc]

/-- A character of words and plain signs in which `export` does not occur, for want of an `x`. -/
def isPlain (c : Char) : Bool := c ≠ 'x' && (isWordPart c || isPlainSign c)

/-- Plain text is inert. -/
theorem isInert_of_isPlain (h : ∀ c ∈ text, isPlain c = true) : IsInert depth text := by
  -- Part of a word may have been read already.
  have hgeneral : ∀ word : List Char, 'x' ∉ word → ∀ names c rest, isWordPart c = false →
      Reader.read { settled depth names with word } (text ++ c :: rest) =
        (settled depth names).read (c :: rest) := by
    induction text with
    | nil =>
      intro word hx names c rest hc
      have hexport : depth = 0 → word ≠ "export".toList := by
        rintro - rfl
        exact hx (by decide)
      rw [List.nil_append, read_cons, read_cons, step_of_sign rfl hc, endWord_settled hexport,
        settled_step hc]
    | cons a more ih =>
      intro word hx names c rest hc
      rw [List.forall_mem_cons] at h
      have ha := h.1
      simp only [isPlain, Bool.and_eq_true, Bool.or_eq_true, decide_eq_true_eq] at ha
      rw [List.cons_append, read_cons]
      rcases ha.2 with hpart | hsign
      · have hstep : Reader.step { settled depth names with word } a =
            { settled depth names with word := word ++ [a] } := step_of_isWordPart rfl hpart
        have hx' : 'x' ∉ word ++ [a] := by
          rw [List.mem_append, List.mem_singleton]
          rintro (hmem | heq)
          · exact hx hmem
          · exact ha.1 heq.symm
        rw [hstep]
        exact ih h.2 _ hx' names c rest hc
      · have hword : isWordPart a = false := by
          simpa [isPlainSign] using (Bool.and_eq_true_iff.mp hsign).1
        have hexport : depth = 0 → word ≠ "export".toList := by
          rintro - rfl
          exact hx (by decide)
        rw [step_of_sign rfl hword, endWord_settled hexport, sign_settled_of_isPlainSign hsign]
        exact ih h.2 [] (by simp) names c rest hc
  intro names c rest hc
  exact hgeneral [] (by simp) names c rest hc

end

/-! ## Strings -/

/-- Whether a text inside a string leaves the reader there. -/
def StaysQuoted (quote : Quote) (text : List Char) : Prop :=
  ∀ r : Reader, r.mode = .quoted quote → r.read text = r

section
variable {quote : Quote} {text more : List Char} {c : Char}

theorem StaysQuoted.append (h : StaysQuoted quote text) (hmore : StaysQuoted quote more) :
    StaysQuoted quote (text ++ more) := by
  intro r hr
  rw [read_append, h r hr, hmore r hr]

theorem staysQuoted_flatMap {α : Type} {f : α → List Char} {as : List α}
    (h : ∀ a ∈ as, StaysQuoted quote (f a)) : StaysQuoted quote (as.flatMap f) := by
  induction as with
  | nil => exact fun r _ => rfl
  | cons a rest ih =>
    rw [List.forall_mem_cons] at h
    rw [List.flatMap_cons]
    exact h.1.append (ih h.2)

theorem staysQuoted_of_ne (h : ∀ c ∈ text, c ≠ '\\' ∧ c ≠ quote.char) : StaysQuoted quote text := by
  intro r hr
  induction text with
  | nil => rfl
  | cons c rest ih =>
    rw [List.forall_mem_cons] at h
    have hstep : r.step c = r := by
      rw [Reader.step, hr]
      dsimp only
      rw [if_neg h.1.1, if_neg h.1.2]
    rw [read_cons, hstep, ih h.2]

/-- A character behind a backslash counts for nothing. -/
theorem staysQuoted_escape (h : StaysQuoted quote text) : StaysQuoted quote ('\\' :: c :: text) := by
  intro r hr
  have hstep : (r.step '\\').step c = r := by
    obtain ⟨mode, depth, word, stage, names⟩ := r
    dsimp only at hr
    subst hr
    rfl
  rw [read_cons, read_cons, hstep, h r hr]

/-- A string is passed over. -/
theorem settles_string (quote : Quote) {depth : Nat} (h : StaysQuoted quote text) :
    Settles depth (quote.char :: text ++ [quote.char]) := by
  intro names
  have hchar : isWordPart quote.char = false ∧ signOf quote.char = .quote quote ∧
      quote.char ≠ '\\' := by
    cases quote with
    | single => decide
    | double => decide
    | back => decide
  have hopen : (settled depth names).step quote.char =
      { settled depth names with mode := .quoted quote } := by
    rw [settled_step hchar.1, hchar.2.1]
    rfl
  have hclose : Reader.step { settled depth names with mode := .quoted quote } quote.char =
      settled depth names := by
    rw [Reader.step]
    dsimp only
    rw [if_neg hchar.2.2, if_pos rfl]
    rfl
  rw [List.cons_append, read_cons, hopen, read_append, h _ rfl, read_cons, hclose, read_nil]

end

end SchemaTypings.Typescript
