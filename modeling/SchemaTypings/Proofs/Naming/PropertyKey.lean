/-
  SchemaTypings.Proofs.Naming.PropertyKey

  What property keys say.  A key is one identifier token, or a string literal that stands for the
  name; only an identifier with a line feed behind it gets a key that is neither.
-/
import SchemaTypings.Proofs.Naming.KeyReader
import SchemaTypings.Proofs.Typescript.StringLiteral

namespace SchemaTypings.Naming

open Json (textUnits unitsOf)
open Typescript (isLineTerminator readEscape readLiteral)

/-! ## Tokens -/

/-- A character that an identifier token begins with. -/
def BeginsIdentifier (c : Char) : Prop :=
  ('a' ≤ c ∧ c ≤ 'z') ∨ ('A' ≤ c ∧ c ≤ 'Z') ∨ c = '_' ∨ c = '$'

/-- The whole text is one identifier token. -/
def IsIdentifierToken : List Char → Prop
  | [] => False
  | first :: rest =>
    BeginsIdentifier first ∧ ∀ c ∈ rest, BeginsIdentifier c ∨ ('0' ≤ c ∧ c ≤ '9')

/-- A control beyond ASCII. -/
def isLateControl (c : Char) : Bool := 0x80 ≤ c.toNat && c.toNat < 0xA0

/-- A control character of Unicode. -/
def isControl (c : Char) : Bool := c.toNat < 0x20 || c.toNat = 0x7F || isLateControl c

/-- The key stands for the name: it is an identifier token and the name itself, or a string literal
on one line that ends at its first quote without an escape and stands for the name's units. -/
def StandsFor (quote : Char) (key name : List Char) : Prop :=
  (IsIdentifierToken name ∧ key = name) ∨
    ∃ body, key = quote :: body ++ [quote] ∧ (∀ c ∈ body, isLineTerminator c = false) ∧
      readLiteral quote (body ++ [quote]) = some (textUnits name, [])

/-- The key stands for the name and holds no raw control. -/
def IsKeyFor (quote : Char) (key name : List Char) : Prop :=
  StandsFor quote key name ∧ ∀ c ∈ key, isControl c = false

/-- An identifier with a line feed behind it. -/
def IsFedIdentifier (name : List Char) : Prop :=
  ∃ word, IsIdentifierToken word ∧ name = word ++ ['\n']

/-! ## Identifiers -/

theorem isIdentifierStart_iff (c : Char) : isIdentifierStart c = true ↔ BeginsIdentifier c := by
  unfold isIdentifierStart BeginsIdentifier Char.isAlpha Char.isUpper Char.isLower
  simp only [Bool.or_eq_true, Bool.and_eq_true, decide_eq_true_eq, Char.le_def, ge_iff_le, or_assoc]
  exact or_left_comm

theorem isIdentifierPart_iff (c : Char) :
    isIdentifierPart c = true ↔ BeginsIdentifier c ∨ ('0' ≤ c ∧ c ≤ '9') := by
  unfold isIdentifierPart Char.isDigit
  simp only [Bool.or_eq_true, isIdentifierStart_iff, Bool.and_eq_true, decide_eq_true_eq,
    Char.le_def, ge_iff_le]

/-- The characters of identifiers are no controls. -/
theorem not_isControl_of_isIdentifierPart {c : Char}
    (h : BeginsIdentifier c ∨ ('0' ≤ c ∧ c ≤ '9')) : isControl c = false := by
  have hbounds : 0x20 ≤ c.toNat ∧ c.toNat < 0x7F := by
    simp only [BeginsIdentifier, Char.le_def, UInt32.le_iff_toNat_le] at h
    rcases h with (⟨hlow, hhigh⟩ | ⟨hlow, hhigh⟩ | rfl | rfl) | ⟨hlow, hhigh⟩
    · exact ⟨le_trans (by decide) hlow, lt_of_le_of_lt hhigh (by decide)⟩
    · exact ⟨le_trans (by decide) hlow, lt_of_le_of_lt hhigh (by decide)⟩
    · decide
    · decide
    · exact ⟨le_trans (by decide) hlow, lt_of_le_of_lt hhigh (by decide)⟩
  simp only [isControl, isLateControl, Bool.or_eq_false_iff, Bool.and_eq_false_iff,
    decide_eq_false_iff_not]
  omega

theorem IsIdentifierToken.not_isControl {word : List Char} (h : IsIdentifierToken word) :
    ∀ c ∈ word, isControl c = false := by
  intro c hc
  cases word with
  | nil => cases hc
  | cons first rest =>
    rcases List.mem_cons.mp hc with rfl | hc
    · exact not_isControl_of_isIdentifierPart (.inl h.1)
    · exact not_isControl_of_isIdentifierPart (h.2 c hc)

theorem IsIdentifierToken.feed_not_mem {word : List Char} (h : IsIdentifierToken word) :
    '\n' ∉ word := fun hmem => by
  cases h.not_isControl _ hmem

/-- The names that stand bare: the identifiers, and these with a line feed behind them. -/
theorem isIdentifier_iff (name : List Char) :
    isIdentifier name = true ↔ IsIdentifierToken name ∨ IsFedIdentifier name := by
  have htoken : isIdentifier name = true ↔ IsIdentifierToken (dropFinalNewline name) := by
    unfold isIdentifier
    split
    · next h => simp [h, IsIdentifierToken]
    · next first rest h =>
      simp only [h, IsIdentifierToken, Bool.and_eq_true, List.all_eq_true, isIdentifierStart_iff,
        isIdentifierPart_iff]
  rw [htoken, dropFinalNewline_iff fun _ => IsIdentifierToken.feed_not_mem]
  rfl

/-! ## Literals -/

/-- That characters end no line and are no controls can be looked up one by one. -/
theorem plain_of_all {cs : List Char}
    (h : (cs.all fun d => !isLineTerminator d && !isControl d) = true) :
    ∀ d ∈ cs, isLineTerminator d = false ∧ isControl d = false := by
  intro d hd
  simpa using List.all_eq_true.mp h d hd

/-- The digits of an escaped control end no line and are no controls. -/
theorem plain_of_mem_hexDigits_two (n : Nat) (hn : n ≤ 0x7F) : ∀ d ∈ Json.hexDigits 2 n,
    isLineTerminator d = false ∧ isControl d = false := by
  have hall : ∀ n ≤ 0x7F,
      ((Json.hexDigits 2 n).all fun d => !isLineTerminator d && !isControl d) = true := by
    decide +kernel
  exact plain_of_all (hall n hn)

/-- What stands behind a backslash for a character: plain characters, read back as its units. -/
structure Escapes (escape : List Char) (c : Char) : Prop where
  plain : ∀ d ∈ escape, isLineTerminator d = false ∧ isControl d = false
  early : isLateControl c = false
  reads : ∀ rest, readEscape (escape ++ rest) = some (unitsOf c.toNat, rest)

/-- A quote escapes itself. -/
theorem escapes_quote {quote : Char} (hquote : quote = '\'' ∨ quote = '"') :
    Escapes [quote] quote := by
  rcases hquote with rfl | rfl
  · exact ⟨plain_of_all (by decide), rfl, fun _ => rfl⟩
  · exact ⟨plain_of_all (by decide), rfl, fun _ => rfl⟩

/-- The characters with an escape of their own. -/
def escapedChars : List Char :=
  ['\\', '\n', '\r', '\t', '\x08', '\x0c', '\x0b', '\u2028', '\u2029']

theorem escapes_of_mem_escapedChars {c : Char} (h : c ∈ escapedChars) {quote : Char}
    (hquoted : c ≠ quote) :
    ∃ escape, escapeKeyChar [quote] c = '\\' :: escape ∧ Escapes escape c := by
  -- The quote makes no difference to a character that is no quote.
  have hwritten : ∀ escape, escapeKeyChar ['\''] c = '\\' :: escape → c ≠ '\'' →
      escapeKeyChar [quote] c = '\\' :: escape := by
    intro escape hescape hsingle
    rw [← hescape]
    simp only [escapeKeyChar, List.cons.injEq, and_true, hquoted, hsingle, if_false]
  simp only [escapedChars, List.mem_cons, List.not_mem_nil, or_false] at h
  rcases h with rfl | rfl | rfl | rfl | rfl | rfl | rfl | rfl | rfl
  · exact ⟨['\\'], hwritten _ rfl (by decide), plain_of_all (by decide), rfl, fun _ => rfl⟩
  · exact ⟨['n'], hwritten _ rfl (by decide), plain_of_all (by decide), rfl, fun _ => rfl⟩
  · exact ⟨['r'], hwritten _ rfl (by decide), plain_of_all (by decide), rfl, fun _ => rfl⟩
  · exact ⟨['t'], hwritten _ rfl (by decide), plain_of_all (by decide), rfl, fun _ => rfl⟩
  · exact ⟨['b'], hwritten _ rfl (by decide), plain_of_all (by decide), rfl, fun _ => rfl⟩
  · exact ⟨['f'], hwritten _ rfl (by decide), plain_of_all (by decide), rfl, fun _ => rfl⟩
  · exact ⟨['v'], hwritten _ rfl (by decide), plain_of_all (by decide), rfl, fun _ => rfl⟩
  · exact ⟨"u2028".toList, hwritten _ rfl (by decide), plain_of_all (by decide), rfl, fun _ => rfl⟩
  · exact ⟨"u2029".toList, hwritten _ rfl (by decide), plain_of_all (by decide), rfl, fun _ => rfl⟩

/-- The digits of a control of ASCII stand for it. -/
theorem escapes_hexDigits {c : Char} (h : c.toNat < 0x20 ∨ c.toNat = 0x7F) :
    Escapes ('x' :: Json.hexDigits 2 c.toNat) c := by
  obtain ⟨x, y, hdigits, hvalue⟩ := hexValue4?_hexDigits_two c.toNat (by omega)
  refine ⟨List.forall_mem_cons.mpr ⟨by decide, plain_of_mem_hexDigits_two c.toNat (by omega)⟩, ?_,
    fun rest => ?_⟩
  · simp only [isLateControl, Bool.and_eq_false_iff, decide_eq_false_iff_not]
    omega
  · rw [hdigits, List.cons_append, List.cons_append, List.cons_append, List.nil_append, readEscape,
      hvalue, unitsOf, if_pos (by omega)]
    rfl

section
variable {quote : Char} (hquote : quote = '\'' ∨ quote = '"')
include hquote

/-- How a character is written in a literal: as an escape that stands for it, or as it is, and then
it ends neither the literal nor a line and is no control of ASCII. -/
theorem escapeKeyChar_cases (c : Char) :
    (∃ escape, escapeKeyChar [quote] c = '\\' :: escape ∧ Escapes escape c) ∨
    (escapeKeyChar [quote] c = [c] ∧ c ≠ quote ∧ c ≠ '\\' ∧ isLineTerminator c = false ∧
      isControl c = isLateControl c) := by
  by_cases hquoted : c = quote
  · subst hquoted
    refine .inl ⟨[c], ?_, escapes_quote hquote⟩
    rcases hquote with rfl | rfl <;> rfl
  by_cases hlisted : c ∈ escapedChars
  · exact .inl (escapes_of_mem_escapedChars hlisted hquoted)
  simp only [escapedChars, List.mem_cons, List.not_mem_nil, or_false, not_or] at hlisted
  obtain ⟨hbackslash, hfeed, hreturn, htab, hbackspace, hform, hvertical, hline, hparagraph⟩ :=
    hlisted
  have hwritten : escapeKeyChar [quote] c =
      if c.toNat < 0x20 ∨ c.toNat = 0x7F then '\\' :: 'x' :: Json.hexDigits 2 c.toNat else [c] := by
    simp only [escapeKeyChar, List.cons.injEq, and_true, hquoted, hbackslash, hfeed, hreturn, htab,
      hbackspace, hform, hvertical, hline, hparagraph, if_false]
  by_cases hcontrol : c.toNat < 0x20 ∨ c.toNat = 0x7F
  · rw [if_pos hcontrol] at hwritten
    exact .inl ⟨_, hwritten, escapes_hexDigits hcontrol⟩
  · rw [if_neg hcontrol] at hwritten
    refine .inr ⟨hwritten, hquoted, hbackslash, ?_, ?_⟩
    · simp only [isLineTerminator, hfeed, hreturn, hline, hparagraph, decide_false, Bool.or_self]
    · simp only [not_or] at hcontrol
      simp only [isControl, hcontrol.1, hcontrol.2, decide_false, Bool.false_or]

/-- A character of a literal is read back as its units. -/
theorem readLiteral_escapeKeyChar (c : Char) (rest : List Char) :
    readLiteral quote (escapeKeyChar [quote] c ++ rest) =
      (readLiteral quote rest).map fun (units, rest) => (unitsOf c.toNat ++ units, rest) := by
  rcases escapeKeyChar_cases hquote c with ⟨escape, hwritten, hescape⟩ |
    ⟨hwritten, hne, hbackslash, hline, -⟩
  · rw [hwritten, List.cons_append]
    have hne : quote ≠ '\\' := by rcases hquote with rfl | rfl <;> decide
    exact Typescript.readLiteral_escape hne (hescape.reads rest)
  · rw [hwritten, List.singleton_append]
    refine Typescript.readLiteral_cons hne hbackslash ?_ ?_ rest
    · rintro rfl
      cases hline
    · rintro rfl
      cases hline

theorem readLiteral_flatMap (name rest : List Char) :
    readLiteral quote (name.flatMap (escapeKeyChar [quote]) ++ quote :: rest) =
      some (textUnits name, rest) := by
  induction name with
  | nil => exact Typescript.readLiteral_quote rest
  | cons c name ih =>
    rw [List.flatMap_cons, List.append_assoc, readLiteral_escapeKeyChar hquote, ih]
    rfl

/-- Nothing in a literal ends a line. -/
theorem not_isLineTerminator_of_mem_flatMap {name : List Char} {c : Char}
    (h : c ∈ name.flatMap (escapeKeyChar [quote])) : isLineTerminator c = false := by
  obtain ⟨d, -, hc⟩ := List.mem_flatMap.mp h
  rcases escapeKeyChar_cases hquote d with ⟨escape, hwritten, hescape⟩ | ⟨hwritten, -, -, hline, -⟩
  · rw [hwritten] at hc
    rcases List.mem_cons.mp hc with rfl | hc
    · rfl
    · exact (hescape.plain c hc).1
  · rw [hwritten, List.mem_singleton] at hc
    rw [hc, hline]

/-- The controls in a literal are those beyond ASCII in the name. -/
theorem isControl_mem_flatMap_iff {name : List Char} {c : Char} (hc : isControl c = true) :
    c ∈ name.flatMap (escapeKeyChar [quote]) ↔ c ∈ name ∧ isLateControl c = true := by
  rw [List.mem_flatMap]
  constructor
  · rintro ⟨d, hd, hcd⟩
    rcases escapeKeyChar_cases hquote d with ⟨escape, hwritten, hescape⟩ |
      ⟨hwritten, -, -, -, hlate⟩
    · rw [hwritten] at hcd
      rcases List.mem_cons.mp hcd with rfl | hcd
      · cases hc
      · rw [(hescape.plain c hcd).2] at hc
        cases hc
    · rw [hwritten, List.mem_singleton] at hcd
      subst hcd
      exact ⟨hd, hlate ▸ hc⟩
  · rintro ⟨hmem, hlate⟩
    refine ⟨c, hmem, ?_⟩
    rcases escapeKeyChar_cases hquote c with ⟨escape, -, hescape⟩ | ⟨hwritten, -⟩
    · rw [hescape.early] at hlate
      cases hlate
    · rw [hwritten]
      exact List.mem_singleton_self c

/-! ## Keys -/

/-- A key stands for one name. -/
theorem StandsFor.name_unique {key name other : List Char} (h : StandsFor quote key name)
    (hother : StandsFor quote key other) : name = other := by
  have hstart : ¬BeginsIdentifier quote := by
    unfold BeginsIdentifier
    rcases hquote with rfl | rfl <;> decide
  have hmixed : ∀ {text body : List Char}, IsIdentifierToken text →
      text ≠ quote :: body ++ [quote] := by
    rintro text body htoken rfl
    exact hstart htoken.1
  rcases h with ⟨htoken, rfl⟩ | ⟨body, rfl, -, hread⟩
  · rcases hother with ⟨-, rfl⟩ | ⟨_, heq, -, -⟩
    · rfl
    · exact absurd heq (hmixed htoken)
  · rcases hother with ⟨htoken, heq⟩ | ⟨body', heq, -, hread'⟩
    · exact absurd heq.symm (hmixed htoken)
    · obtain rfl : body = body' := List.append_cancel_right (List.cons.inj heq).2
      rw [hread] at hread'
      exact Json.textUnits_injective (congrArg Prod.fst (Option.some.inj hread'))

theorem StandsFor.feed_not_mem {key name : List Char} (h : StandsFor quote key name) :
    '\n' ∉ key := by
  have hne : '\n' ≠ quote := by rcases hquote with rfl | rfl <;> decide
  rcases h with ⟨htoken, rfl⟩ | ⟨body, rfl, hline, -⟩
  · exact htoken.feed_not_mem
  · rw [List.mem_append, List.mem_cons, List.mem_singleton]
    rintro ((heq | hmem) | heq)
    · exact hne heq
    · cases hline _ hmem
    · exact hne heq

omit hquote in
/-- An identifier with a line feed behind it stands bare, the line feed included. -/
theorem propertyKeyChars_of_isFedIdentifier {name : List Char} (h : IsFedIdentifier name) :
    propertyKeyChars [quote] name = name := by
  rw [propertyKeyChars, if_pos ((isIdentifier_iff name).mpr (.inr h))]

theorem standsFor_propertyKeyChars {name : List Char} (h : ¬IsFedIdentifier name) :
    StandsFor quote (propertyKeyChars [quote] name) name := by
  unfold propertyKeyChars
  split
  · next hidentifier =>
    exact .inl ⟨((isIdentifier_iff name).mp hidentifier).resolve_right h, rfl⟩
  · exact .inr ⟨_, rfl, fun c hc => not_isLineTerminator_of_mem_flatMap hquote hc,
      readLiteral_flatMap hquote name []⟩

theorem standsFor_propertyKeyChars_iff (name : List Char) :
    StandsFor quote (propertyKeyChars [quote] name) name ↔ ¬IsFedIdentifier name := by
  refine ⟨fun h hfed => ?_, standsFor_propertyKeyChars hquote⟩
  rw [propertyKeyChars_of_isFedIdentifier hfed] at h
  obtain ⟨word, -, rfl⟩ := hfed
  exact h.feed_not_mem hquote (by simp)

/-- The controls in the key of a name that is no identifier with a line feed are those beyond ASCII
in the name. -/
theorem isControl_mem_propertyKeyChars_iff {name : List Char} (h : ¬IsFedIdentifier name)
    {c : Char} (hc : isControl c = true) :
    c ∈ propertyKeyChars [quote] name ↔ c ∈ name ∧ isLateControl c = true := by
  unfold propertyKeyChars
  split
  · next hidentifier =>
    have hname := (((isIdentifier_iff name).mp hidentifier).resolve_right h).not_isControl
    have hnot : c ∉ name := fun hmem => by
      rw [hname c hmem] at hc
      cases hc
    simp only [hnot, false_and]
  · have hne : c ≠ quote := by
      rintro rfl
      rcases hquote with rfl | rfl <;> cases hc
    rw [List.mem_append, List.mem_append, List.mem_singleton, isControl_mem_flatMap_iff hquote hc]
    simp only [hne, false_or, or_false]

/-- Names with the same key are the same. -/
theorem propertyKeyChars_injective : Function.Injective (propertyKeyChars [quote]) := by
  intro name other h
  by_cases hname : IsFedIdentifier name
  · by_cases hother : IsFedIdentifier other
    · rwa [propertyKeyChars_of_isFedIdentifier hname, propertyKeyChars_of_isFedIdentifier hother] at h
    · have hnot := (standsFor_propertyKeyChars hquote hother).feed_not_mem hquote
      rw [← h, propertyKeyChars_of_isFedIdentifier hname] at hnot
      obtain ⟨word, -, rfl⟩ := hname
      exact absurd (by simp) hnot
  · have hstands := standsFor_propertyKeyChars hquote hname
    by_cases hother : IsFedIdentifier other
    · have hnot := hstands.feed_not_mem hquote
      rw [h, propertyKeyChars_of_isFedIdentifier hother] at hnot
      obtain ⟨word, -, rfl⟩ := hother
      exact absurd (by simp) hnot
    · rw [h] at hstands
      exact hstands.name_unique hquote (standsFor_propertyKeyChars hquote hother)

end

theorem toList_propertyKey (name : String) (quote : Char) :
    (propertyKey name (String.singleton quote)).toList =
      propertyKeyChars [quote] name.toList := by
  rw [propertyKey, String.toList_ofList, String.toList_singleton]

/-- A key in either quote stands for its name, and without a raw control, exactly if the name is no
identifier with a line feed behind it and holds no control beyond ASCII.  Such a control is the only
one that stays raw in a literal, which stands for the name all the same; an identifier with a line
feed is taken for an identifier, and its key is the name with the line feed.  Distinct names have
distinct keys in any case. -/
theorem isKeyFor_propertyKey_iff {quote : Char} (hquote : quote = '\'' ∨ quote = '"')
    (name : String) :
    (IsKeyFor quote (propertyKey name (String.singleton quote)).toList name.toList ↔
      ¬IsFedIdentifier name.toList ∧ ∀ c ∈ name.toList, isLateControl c = false) ∧
    (StandsFor quote (propertyKey name (String.singleton quote)).toList name.toList ↔
      ¬IsFedIdentifier name.toList) ∧
    (IsFedIdentifier name.toList → propertyKey name (String.singleton quote) = name) ∧
    ∀ other, propertyKey other (String.singleton quote) = propertyKey name (String.singleton quote) →
      other = name := by
  have hstands := standsFor_propertyKeyChars_iff hquote name.toList
  rw [toList_propertyKey]
  refine ⟨?_, hstands, fun hfed => ?_, fun other h => ?_⟩
  · rw [IsKeyFor, hstands]
    -- outside of identifiers only the late controls are left as they are in the quotes
    refine and_congr_right fun hnot => ?_
    have hmem := @isControl_mem_propertyKeyChars_iff quote hquote name.toList hnot
    constructor
    · intro h c hc
      by_contra hlate
      rw [Bool.not_eq_false] at hlate
      have hcontrol : isControl c = true := by rw [isControl, hlate, Bool.or_true]
      have hfree := h c ((hmem hcontrol).mpr ⟨hc, hlate⟩)
      rw [hcontrol] at hfree
      cases hfree
    · intro h c hc
      by_contra hcontrol
      rw [Bool.not_eq_false] at hcontrol
      obtain ⟨hname, hlate⟩ := (hmem hcontrol).mp hc
      rw [h c hname] at hlate
      cases hlate
  · rw [← String.toList_inj, toList_propertyKey, propertyKeyChars_of_isFedIdentifier hfed]
  · rw [← String.toList_inj, toList_propertyKey, toList_propertyKey] at h
    exact String.toList_inj.mp (propertyKeyChars_injective hquote h)

/-- A quote, a backslash, a line separator and a control in one name. -/
theorem isKeyFor_propertyKey_iff_escapes :
    ('"' = '\'' ∨ '"' = '"') ∧
      IsKeyFor '"' (propertyKey "say \"\\\u2028\x07" (String.singleton '"')).toList
        "say \"\\\u2028\x07".toList := by
  have hearly : ("say \"\\\u2028\x07".toList.all fun c => !isLateControl c) = true := by decide
  refine ⟨.inr rfl, (isKeyFor_propertyKey_iff (.inr rfl) _).1.mpr ⟨?_, fun c hc => ?_⟩⟩
  · rintro ⟨word, -, h⟩
    have hlast := congrArg List.getLast? h
    rw [List.getLast?_concat] at hlast
    revert hlast
    decide
  · simpa using List.all_eq_true.mp hearly c hc

/-- The key of an identifier with a line feed behind it holds the line feed. -/
theorem not_isKeyFor_propertyKey_feed :
    ¬IsKeyFor '\'' (propertyKey "a\n").toList "a\n".toList := by
  have hkey : (propertyKey "a\n").toList = ['a', '\n'] := by decide
  rintro ⟨-, hcontrol⟩
  rw [hkey] at hcontrol
  cases hcontrol '\n' (by decide)

end SchemaTypings.Naming
