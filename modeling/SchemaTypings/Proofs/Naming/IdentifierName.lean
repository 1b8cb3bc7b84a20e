/-
  SchemaTypings.Proofs.Naming.IdentifierName

  Identifiers of all scripts, and that case changes neither what an identifier may begin with nor what
  it may go on with.

  Letters with case may stand anywhere in identifiers, in either case, and enclosed letters nowhere.
-/
import SchemaTypings.Proofs.Naming.Kebab
import SchemaTypings.Text.Class

namespace SchemaTypings.Naming

/-! ## Identifiers -/

/-- Letters that identifiers are made of and that are more than a letter in compatibility form, so
that a name of any script does not hold them. -/
def compositeLetters : List Nat :=
  [0x37A, 0x309B, 0x309C, 0xFC5E, 0xFC5F, 0xFC60, 0xFC61, 0xFC62, 0xFC63, 0xFDFA, 0xFDFB, 0xFE70,
    0xFE72, 0xFE74, 0xFE76, 0xFE78, 0xFE7A, 0xFE7C, 0xFE7E]

/-- Letters that identifiers begin with and that a name of any script holds behind others only. -/
def trailingLetters : List Nat := [0xE33, 0xEB3, 0xFF9E, 0xFF9F]

/-- A character that an identifier goes on with: a letter, digit or mark of any script, an
underscore, a dollar sign, or one of the two joiners of zero width. -/
def continuesIdentifier (c : Char) : Bool :=
  Text.isNamePart c || c = '$' || c = '\u200c' || c = '\u200d' || compositeLetters.contains c.toNat

/-- A character that an identifier begins with: a letter of any script, an underscore or a dollar
sign. -/
def startsIdentifier (c : Char) : Bool :=
  Text.isNameStart c || c = '$' || compositeLetters.contains c.toNat ||
    trailingLetters.contains c.toNat

/-- An identifier of any script, reserved words included. -/
def IsIdentifierName : List Char → Prop
  | [] => False
  | first :: rest => startsIdentifier first = true ∧ ∀ c ∈ rest, continuesIdentifier c = true

theorem continuesIdentifier_of_startsIdentifier {c : Char} (h : startsIdentifier c = true) :
    continuesIdentifier c = true := by
  have htrailing : ∀ n ∈ trailingLetters, Text.isNamePart (Char.ofNat n) = true := by
    decide +kernel
  simp only [startsIdentifier, Bool.or_eq_true, decide_eq_true_eq] at h
  rcases h with ((hname | rfl) | hcomposite) | hmem
  · have hpart : Text.isNamePart c = true := by
      simp only [Text.isNameStart, Bool.and_eq_true] at hname
      exact hname.1.1
    simp [continuesIdentifier, hpart]
  · rfl
  · simp only [continuesIdentifier, hcomposite, Bool.or_true]
  · have hpart := htrailing c.toNat (List.contains_iff_mem.mp hmem)
    rw [Char.ofNat_toNat] at hpart
    simp [continuesIdentifier, hpart]

theorem isIdentifierName_iff {name : List Char} : IsIdentifierName name ↔
    name.head?.map startsIdentifier = some true ∧ ∀ c ∈ name, continuesIdentifier c = true := by
  cases name with
  | nil => simp [IsIdentifierName]
  | cons first rest =>
    rw [IsIdentifierName, List.forall_mem_cons, List.head?_cons, Option.map_some, Option.some_inj]
    constructor
    · rintro ⟨hfirst, hrest⟩
      exact ⟨hfirst, continuesIdentifier_of_startsIdentifier hfirst, hrest⟩
    · rintro ⟨hfirst, -, hrest⟩
      exact ⟨hfirst, hrest⟩

/-! ## Letters with case -/

theorem startsIdentifier_of_letter {c : Char} (h : Text.letterBits.testBit c.toNat = true) :
    startsIdentifier c = true := by
  by_cases hascii : Text.isAscii c = true
  · have hlook := forall_ascii
      (p := fun c => !Text.letterBits.testBit c.toNat || startsIdentifier c)
      (by decide +kernel) hascii
    simpa [h] using hlook
  · have hle : 128 ≤ c.toNat := by simpa [Text.isAscii] using hascii
    have halnum : Text.inBounds Text.alphanumericBounds c.toNat = true := by
      have hwithin : Text.letterBits &&&
          Text.bitsOf (65 :: 91 :: 97 :: 123 :: Text.alphanumericBounds) = Text.letterBits := by
        decide +kernel
      have hmem := Text.testBit_of_land_eq hwithin h
      rw [Text.testBit_bitsOf_cons, Text.testBit_bitsOf_cons] at hmem
      rcases hmem with hcapital | hsmall | hmem
      · omega
      · omega
      · have hrising : Text.areRising 0 Text.alphanumericBounds = true := by decide +kernel
        exact (Text.inBounds_of_testBit hrising hmem).2
    obtain ⟨hnameless, hmarks, hlaters, hzeros⟩ :
        Text.letterBits &&& Text.bitsOf Text.namelessBounds = 0 ∧
          Text.letterBits &&& Text.bitsOf Text.markBounds = 0 ∧
          Text.letterBits &&& Text.bitsOf Text.laterLetterBounds = 0 ∧
          ∀ first ∈ Text.decimalZeros, Text.letterBits &&& Text.bitsOf [first, first + 10] = 0 := by
      decide +kernel
    have hnamed := Text.inBounds_eq_false_of_land_eq hnameless h
    have hmark := Text.inBounds_eq_false_of_land_eq hmarks h
    have hlater := Text.inBounds_eq_false_of_land_eq hlaters h
    have hvalue : Text.decimalValue? c = none := by
      rw [Text.decimalValue?, if_neg hascii, Option.map_eq_none_iff, List.find?_eq_none]
      intro first hfirst hin
      rw [Bool.and_eq_true, decide_eq_true_eq, decide_eq_true_eq] at hin
      have hdigit := Text.inBounds_eq_false_of_land_eq (hzeros first hfirst) h
      rw [Text.inBounds, if_neg (by omega), if_pos hin.2] at hdigit
      cases hdigit
    simp [startsIdentifier, Text.isNameStart, Text.isNamePart, Text.isNameChar, Text.isWordChar,
      Text.isAlphanumeric, hascii, halnum, hnamed, hmark, hlater, hvalue]

/-! ## Signs -/

/-- The code points of what identifiers go on with, and of other letters, digits and marks. -/
def identifierBits : Nat :=
  Text.bitsOf [36, 37, 48, 58, 65, 91, 95, 96, 97, 123, 0x200C, 0x200E] |||
    Text.bitsOf (compositeLetters.flatMap fun n => [n, n + 1]) |||
    Text.bitsOf Text.alphanumericBounds ||| Text.bitsOf Text.markBounds |||
    Text.bitsOf Text.leadingSignBounds

theorem testBit_of_continuesIdentifier {c : Char} (h : continuesIdentifier c = true) :
    identifierBits.testBit c.toNat = true := by
  by_cases hascii : Text.isAscii c = true
  · have hlook := forall_ascii
      (p := fun c => !continuesIdentifier c || identifierBits.testBit c.toNat)
      (by decide +kernel) hascii
    simpa [h] using hlook
  · have hfew : ∀ n ∈ 36 :: 95 :: 0x200C :: 0x200D :: compositeLetters,
        identifierBits.testBit n = true := by decide +kernel
    simp only [continuesIdentifier, Text.isNamePart, Text.isNameChar, Text.isWordChar,
      Text.isAlphanumeric, hascii, Bool.or_eq_true, Bool.and_eq_true, decide_eq_true_eq,
      Bool.not_false, true_and, Bool.false_eq_true, if_false, false_or] at h
    rcases h with (((⟨(halnum | rfl) | hmark | hsign, -⟩ | rfl) | rfl) | rfl) | hcomposite
    · simp only [identifierBits, Nat.testBit_or, Text.testBit_of_inBounds halnum, Bool.or_true,
        Bool.true_or]
    · exact hfew 95 (by simp)
    · simp only [identifierBits, Nat.testBit_or, Text.testBit_of_inBounds hmark, Bool.or_true,
        Bool.true_or]
    · simp only [identifierBits, Nat.testBit_or, Text.testBit_of_inBounds hsign, Bool.or_true]
    · exact hfew 36 (by simp)
    · exact hfew 0x200C (by simp)
    · exact hfew 0x200D (by simp)
    · exact hfew c.toNat (by simp [List.contains_iff_mem.mp hcomposite])

/-- Identifiers hold nothing from a set of code points that is apart from theirs. -/
theorem continuesIdentifier_eq_false_of_testBit {bits : Nat} {c : Char}
    (hapart : bits &&& identifierBits = 0) (h : bits.testBit c.toNat = true) :
    continuesIdentifier c = false := by
  rw [← Bool.not_eq_true]
  intro hcontinues
  have hboth : (bits &&& identifierBits).testBit c.toNat = true := by
    rw [Nat.testBit_and, h, testBit_of_continuesIdentifier hcontinues]
    rfl
  rw [hapart, Nat.zero_testBit] at hboth
  cases hboth

/-- The code points of separators. -/
def separatorBits : Nat :=
  Text.bitsOf [9, 14, 28, 33, 0x2D, 0x2F, 0x85, 0x86, 0xA0, 0xA1, 0x1680, 0x1681, 0x2000, 0x200B,
    0x2028, 0x202A, 0x202F, 0x2030, 0x205F, 0x2060, 0x3000, 0x3001]

/-- Separators and enclosed letters are apart from what identifiers are made of. -/
theorem land_identifierBits : separatorBits &&& identifierBits = 0 ∧
    Text.enclosedBits &&& identifierBits = 0 := by
  decide +kernel

/-- No separator is of use in identifiers. -/
theorem continuesIdentifier_eq_false_of_isSeparator {c : Char} (h : isSeparator c = true) :
    continuesIdentifier c = false := by
  refine continuesIdentifier_eq_false_of_testBit land_identifierBits.1 ?_
  simp only [isSeparator, Text.isBlank, Bool.or_eq_true, Bool.and_eq_true, decide_eq_true_eq] at h
  simp only [separatorBits, Text.testBit_bitsOf_cons]
  rcases h with (rfl | rfl) | h
  · decide
  · decide
  · omega

/-! ## Case -/

/-- Case does not matter in ASCII. -/
theorem identifier_case_of_isAscii {c : Char} (h : Text.isAscii c = true) :
    startsIdentifier c.toLower = startsIdentifier c ∧
      continuesIdentifier c.toLower = continuesIdentifier c ∧
        continuesIdentifier c.toUpper = continuesIdentifier c := by
  have hlook := forall_ascii (p := fun c => startsIdentifier c.toLower == startsIdentifier c &&
    (continuesIdentifier c.toLower == continuesIdentifier c &&
      continuesIdentifier c.toUpper == continuesIdentifier c)) (by decide) h
  rwa [Bool.and_eq_true, Bool.and_eq_true, beq_iff_eq, beq_iff_eq, beq_iff_eq] at hlook

/-- Case keeps what an identifier may begin with and what it may go on with. -/
theorem startsIdentifier_ofNat_of_areAlike {c : Char} {code : Nat}
    (h : Text.areAlike c.toNat code = true) :
    startsIdentifier (Char.ofNat code) = startsIdentifier c ∧
      continuesIdentifier (Char.ofNat code) = continuesIdentifier c := by
  have hstarts : ∀ d : Char, Text.letterBits.testBit d.toNat = true →
      startsIdentifier d = true ∧ continuesIdentifier d = true := fun d hd =>
    ⟨startsIdentifier_of_letter hd,
      continuesIdentifier_of_startsIdentifier (startsIdentifier_of_letter hd)⟩
  have hignores : ∀ d : Char, Text.enclosedBits.testBit d.toNat = true →
      startsIdentifier d = false ∧ continuesIdentifier d = false := by
    intro d hd
    have hcontinues := continuesIdentifier_eq_false_of_testBit land_identifierBits.2 hd
    refine ⟨?_, hcontinues⟩
    rw [← Bool.not_eq_true]
    intro hstart
    rw [continuesIdentifier_of_startsIdentifier hstart] at hcontinues
    cases hcontinues
  have hnat := Text.toNat_ofNat_of_areAlike h
  rw [Text.areAlike, Bool.or_eq_true, Bool.and_eq_true, Bool.and_eq_true] at h
  rcases h with ⟨hc, hcode⟩ | ⟨hc, hcode⟩
  · rw [(hstarts c hc).1, (hstarts c hc).2]
    exact hstarts (Char.ofNat code) (by rwa [hnat])
  · rw [(hignores c hc).1, (hignores c hc).2]
    exact hignores (Char.ofNat code) (by rwa [hnat])

/-- The marks that stand beside letters in the sequences of title case. -/
def titleMarks : List Nat := [700, 702, 768, 769, 776, 778, 780, 787, 817, 834, 837]

/-- A sequence of title case is made of letters with case and of marks, in place of such a letter. -/
theorem continuesIdentifier_of_mem_titleSequences {entry : Nat × List Nat} {code : Nat}
    (hentry : entry ∈ Text.titleSequences) (hcode : code ∈ entry.1 :: entry.2) :
    continuesIdentifier (Char.ofNat code) = true := by
  have hsequences : ∀ entry ∈ Text.titleSequences, ∀ code ∈ entry.1 :: entry.2,
      Text.letterBits.testBit code = true ∨ code ∈ titleMarks := by decide +kernel
  rcases hsequences entry hentry code hcode with hletter | hmark
  · apply continuesIdentifier_of_startsIdentifier
    apply startsIdentifier_of_letter
    rwa [Text.toNat_ofNat_of_testBit (by decide +kernel) hletter]
  · have hmarks : ∀ code ∈ titleMarks, continuesIdentifier (Char.ofNat code) = true := by
      decide
    exact hmarks code hmark

/-- Lower case writes a character as one that is of use in identifiers just where it is, and marks
behind. -/
theorem exists_lowerChar_eq (c : Char) : ∃ first rest, Text.lowerChar c = first :: rest ∧
    startsIdentifier first = startsIdentifier c ∧
    continuesIdentifier first = continuesIdentifier c ∧
    ∀ d ∈ rest, continuesIdentifier d = true := by
  rcases Text.lowerChar_cases c with
    ⟨hascii, heq⟩ | ⟨-, ⟨rfl, heq⟩ | ⟨code, hcode, heq⟩ | ⟨-, heq⟩⟩
  · obtain ⟨hstarts, hcontinues, -⟩ := identifier_case_of_isAscii hascii
    exact ⟨_, [], heq, hstarts, hcontinues, by simp⟩
  · refine ⟨'i', ['\u0307'], heq, by decide, by decide, ?_⟩
    rw [List.forall_mem_singleton]
    decide
  · obtain ⟨hstarts, hcontinues⟩ :=
      startsIdentifier_ofNat_of_areAlike (Text.areAlike_of_lowerRuns hcode)
    exact ⟨_, [], heq, hstarts, hcontinues, by simp⟩
  · exact ⟨c, [], heq, rfl, rfl, by simp⟩

theorem forall_mem_titleChar_iff (c : Char) :
    (∀ d ∈ Text.titleChar c, continuesIdentifier d = true) ↔ continuesIdentifier c = true := by
  rcases Text.titleChar_cases c with
    ⟨hascii, heq⟩ | ⟨-, ⟨codes, hentry, heq⟩ | ⟨code, hcode, heq⟩ | ⟨-, heq⟩⟩
  · rw [heq, List.forall_mem_singleton, (identifier_case_of_isAscii hascii).2.2]
  · have hself := continuesIdentifier_of_mem_titleSequences hentry List.mem_cons_self
    rw [Char.ofNat_toNat] at hself
    rw [heq, List.forall_mem_map]
    refine iff_of_true (fun code hcode => ?_) hself
    exact continuesIdentifier_of_mem_titleSequences hentry (List.mem_cons_of_mem _ hcode)
  · rw [heq, List.forall_mem_singleton]
    rcases Text.areAlike_of_titleRuns hcode with halike | ⟨hmark, rfl⟩
    · rw [(startsIdentifier_ofNat_of_areAlike halike).2]
    · obtain rfl : c = Char.ofNat 837 := by rw [← hmark, Char.ofNat_toNat]
      exact iff_of_true (by decide) (by decide)
  · rw [heq, List.forall_mem_singleton]

end SchemaTypings.Naming
