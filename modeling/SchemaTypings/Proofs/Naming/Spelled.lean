/-
  SchemaTypings.Proofs.Naming.Spelled

  Names of any characters in camel, pascal and kebab case: which are identifiers, which are reserved,
  and how much of a name its spellings keep.

  A name is not cleaned before it is spelled.  Separators go, underscores part words, and case leaves
  what is of use in identifiers, so the spellings are identifiers as far as the name is made of parts
  of such.
-/
import SchemaTypings.Proofs.Naming.IdentifierName

namespace SchemaTypings

/-! ## Case of a text -/

namespace Text

/-- The first character of the first piece that has any. -/
theorem head?_filter_splitAt (sep : Char) (cs : List Char) :
    ((splitAt sep cs).filter (· ≠ [])).head?.bind List.head? = cs.find? (· ≠ sep) := by
  induction cs with
  | nil => rfl
  | cons c rest ih =>
    by_cases hc : c = sep
    · subst hc
      rw [splitAt_sep_cons, List.filter_cons_of_neg (by simp), ih,
        List.find?_cons_of_neg (by simp)]
    · obtain ⟨piece, pieces, hsplit⟩ := List.exists_cons_of_ne_nil (splitAt_ne_nil sep rest)
      rw [splitAt_cons_of_ne hc hsplit, List.filter_cons_of_pos (by simp),
        List.find?_cons_of_pos (by simpa using hc)]
      rfl

/-- What holds of the separator holds of all of a text if it holds of all of its pieces. -/
theorem forall_mem_splitAt_iff {p : Char → Prop} {sep : Char} (hsep : p sep) (cs : List Char) :
    (∀ piece ∈ splitAt sep cs, ∀ c ∈ piece, p c) ↔ ∀ c ∈ cs, p c := by
  induction cs with
  | nil => simp
  | cons c rest ih =>
    by_cases hc : c = sep
    · subst hc
      rw [splitAt_sep_cons, List.forall_mem_cons, List.forall_mem_cons, ih]
      simp [hsep]
    · obtain ⟨piece, pieces, hsplit⟩ := List.exists_cons_of_ne_nil (splitAt_ne_nil sep rest)
      rw [hsplit, List.forall_mem_cons] at ih
      rw [splitAt_cons_of_ne hc hsplit, List.forall_mem_cons, List.forall_mem_cons,
        List.forall_mem_cons, and_assoc, ih]

end Text

namespace Naming

/-- What lower case writes for a character in a text: a sigma has two small forms, and each other
character is written as on its own. -/
theorem exists_lowerAfter_cons (before : List Char) (c : Char) (rest : List Char) :
    ∃ first more, Text.lowerAfter before (c :: rest) =
        first :: more ++ Text.lowerAfter (c :: before) rest ∧
      startsIdentifier first = startsIdentifier c ∧
      continuesIdentifier first = continuesIdentifier c ∧
      (∀ d ∈ more, continuesIdentifier d = true) ∧ (c ≠ '_' → first ≠ '_') := by
  rw [Text.lowerAfter]
  split
  · next hsigma =>
    subst hsigma
    split
    · exact ⟨'ς', [], rfl, by decide, by decide, by simp, by decide⟩
    · exact ⟨'σ', [], rfl, by decide, by decide, by simp, by decide⟩
  · obtain ⟨first, more, heq, hstarts, hcontinues, hmore⟩ := exists_lowerChar_eq c
    refine ⟨first, more, by rw [heq], hstarts, hcontinues, hmore, ?_⟩
    rintro hc rfl
    exact hc (Text.eq_of_mem_lowerChar (by decide) (heq ▸ List.mem_cons_self))

theorem forall_mem_lowerAfter_iff (before cs : List Char) :
    (∀ d ∈ Text.lowerAfter before cs, continuesIdentifier d = true) ↔
      ∀ c ∈ cs, continuesIdentifier c = true := by
  induction cs generalizing before with
  | nil => simp [Text.lowerAfter]
  | cons c rest ih =>
    obtain ⟨first, more, heq, -, hfirst, hmore, -⟩ := exists_lowerAfter_cons before c rest
    rw [heq, List.cons_append, List.forall_mem_cons, List.forall_mem_append, ih,
      List.forall_mem_cons, hfirst, and_iff_right hmore]

theorem lowerAfter_ne_nil (before : List Char) {cs : List Char} (h : cs ≠ []) :
    Text.lowerAfter before cs ≠ [] := by
  obtain ⟨c, rest, rfl⟩ := List.exists_cons_of_ne_nil h
  obtain ⟨first, more, heq, -⟩ := exists_lowerAfter_cons before c rest
  rw [heq]
  exact List.cons_ne_nil _ _

theorem head?_lowerAfter (before cs : List Char) :
    (Text.lowerAfter before cs).head?.map startsIdentifier = cs.head?.map startsIdentifier := by
  cases cs with
  | nil => rfl
  | cons c rest =>
    obtain ⟨first, more, heq, hstarts, -⟩ := exists_lowerAfter_cons before c rest
    rw [heq]
    exact congrArg some hstarts

/-- Lower case keeps where the first word begins and whether an identifier may begin there. -/
theorem find?_lowerAfter (before cs : List Char) :
    ((Text.lowerAfter before cs).find? (· ≠ '_')).map startsIdentifier =
      (cs.find? (· ≠ '_')).map startsIdentifier := by
  induction cs generalizing before with
  | nil => rfl
  | cons c rest ih =>
    by_cases hc : c = '_'
    · subst hc
      exact ih _
    · obtain ⟨first, more, heq, hstarts, -, -, hne⟩ := exists_lowerAfter_cons before c rest
      rw [heq, List.cons_append, List.find?_cons_of_pos (by simpa using hne hc),
        List.find?_cons_of_pos (by simpa using hc)]
      exact congrArg some hstarts

theorem forall_mem_capitalize_iff (word : List Char) :
    (∀ d ∈ Text.capitalize word, continuesIdentifier d = true) ↔
      ∀ c ∈ word, continuesIdentifier c = true := by
  cases word with
  | nil => simp
  | cons c rest =>
    rw [Text.capitalize, List.forall_mem_append, forall_mem_titleChar_iff,
      forall_mem_lowerAfter_iff, List.forall_mem_cons]

/-! ## Words -/

/-- The character with which the first word of a name begins. -/
def leader? (name : List Char) : Option Char := name.find? fun c => !isSeparator c && c ≠ '_'

/-- A name that has nothing but separators beside what is of use in identifiers. -/
def HasIdentifierParts (name : List Char) : Prop :=
  ∀ c ∈ name, isSeparator c = true ∨ continuesIdentifier c = true

instance (name : List Char) : Decidable (HasIdentifierParts name) :=
  List.decidableBAll (fun c => isSeparator c = true ∨ continuesIdentifier c = true) name

theorem forall_mem_markWords_iff {p : Char → Prop} (h : p '_') (cs : List Char) :
    (∀ c ∈ markWords cs, p c) ↔ ∀ c ∈ cs, p c := by
  induction cs using markWords.induct with
  | case1 x y rest hbegins ih =>
    rw [markWords, if_pos hbegins, List.forall_mem_cons, List.forall_mem_cons, ih,
      List.forall_mem_cons (a := x)]
    exact and_congr_right fun _ => and_iff_right h
  | case2 x y rest hbegins ih =>
    rw [markWords, if_neg hbegins, List.forall_mem_cons, ih, List.forall_mem_cons (a := x)]
  | case3 cs hshort =>
    rw [markWords.eq_def]
    split
    · exact absurd rfl (hshort _ _ _)
    · exact Iff.rfl

theorem find?_markWords (cs : List Char) :
    (markWords cs).find? (· ≠ '_') = cs.find? (· ≠ '_') := by
  induction cs using markWords.induct with
  | case1 x y rest hbegins ih =>
    have hmark : ('_' :: markWords (y :: rest)).find? (· ≠ '_') = (y :: rest).find? (· ≠ '_') := ih
    rw [markWords, if_pos hbegins, List.find?_cons, hmark]
    rfl
  | case2 x y rest hbegins ih =>
    rw [markWords, if_neg hbegins, List.find?_cons, ih]
    rfl
  | case3 cs hshort =>
    rw [markWords.eq_def]
    split
    · exact absurd rfl (hshort _ _ _)
    · rfl

theorem find?_unifySeparators (name : List Char) :
    (unifySeparators name).find? (· ≠ '_') = leader? name := by
  induction name with
  | nil => rfl
  | cons c rest ih =>
    rw [unifySeparators, List.map_cons, leader?]
    by_cases hsep : isSeparator c = true
    · rw [if_pos hsep, List.find?_cons_of_neg (by simp), List.find?_cons_of_neg (by simp [hsep])]
      exact ih
    · rw [if_neg hsep, List.find?_cons, List.find?_cons]
      simp only [hsep, Bool.not_false, Bool.true_and]
      split
      · rfl
      · exact ih

theorem forall_mem_unifySeparators_iff (name : List Char) :
    (∀ c ∈ unifySeparators name, continuesIdentifier c = true) ↔ HasIdentifierParts name := by
  rw [unifySeparators, List.forall_mem_map]
  refine forall₂_congr fun c _ => ?_
  split
  · next hsep => exact iff_of_true (by decide) (.inl hsep)
  · next hsep => exact (or_iff_right hsep).symm

theorem forall_mem_words_iff (name : List Char) :
    (∀ word ∈ words name, ∀ c ∈ word, continuesIdentifier c = true) ↔
      HasIdentifierParts name := by
  have hunderscore : continuesIdentifier '_' = true := by decide
  have hfilter : (∀ word ∈ words name, ∀ c ∈ word, continuesIdentifier c = true) ↔
      ∀ piece ∈ Text.splitAt '_' (Text.lower (markWords (unifySeparators name))),
        ∀ c ∈ piece, continuesIdentifier c = true := by
    rw [words, List.forall_mem_filter]
    refine forall₂_congr fun piece _ => ?_
    cases piece with
    | nil => simp
    | cons c rest => simp
  rw [hfilter, Text.forall_mem_splitAt_iff hunderscore, Text.lower, forall_mem_lowerAfter_iff,
    forall_mem_markWords_iff hunderscore, forall_mem_unifySeparators_iff]

/-- The first word begins with an identifier exactly if the name does where its words begin. -/
theorem head?_words (name : List Char) :
    ((words name).head?.bind List.head?).map startsIdentifier =
      (leader? name).map startsIdentifier := by
  rw [words, Text.head?_filter_splitAt, Text.lower, find?_lowerAfter, find?_markWords,
    find?_unifySeparators]

theorem words_eq_nil_iff (name : List Char) : words name = [] ↔ leader? name = none := by
  have hhead := head?_words name
  cases hwords : words name with
  | nil =>
    rw [hwords] at hhead
    refine iff_of_true rfl (Option.map_eq_none_iff.mp hhead.symm)
  | cons word rest =>
    have hmem : word ∈ words name := hwords ▸ List.mem_cons_self
    obtain ⟨c, more, rfl⟩ := List.exists_cons_of_ne_nil (ne_nil_of_mem_words hmem)
    refine iff_of_false (List.cons_ne_nil _ _) fun hnone => ?_
    rw [hwords, hnone] at hhead
    cases hhead

/-- A name without words is made of separators and underscores. -/
theorem words_eq_nil_iff_forall (name : List Char) :
    words name = [] ↔ ∀ c ∈ name, isSeparator c = true ∨ c = '_' := by
  rw [words_eq_nil_iff, leader?, List.find?_eq_none]
  refine forall₂_congr fun c _ => ?_
  simp [Classical.or_iff_not_imp_left]

/-! ## Camel and pascal case -/

theorem forall_mem_pascal_iff (name : List Char) :
    (∀ c ∈ pascal name, continuesIdentifier c = true) ↔ HasIdentifierParts name := by
  rw [pascal, List.forall_mem_flatMap, ← forall_mem_words_iff]
  exact forall₂_congr fun word _ => forall_mem_capitalize_iff word

/-- A name in camel case is an identifier if its parts are and it begins with one; a name without
words stays as it is, and is an identifier if it is underscores. -/
theorem isIdentifierName_camel_iff (name : List Char) : IsIdentifierName (camel name) ↔
    (leader? name).map startsIdentifier = some true ∧ HasIdentifierParts name ∨
      name ≠ [] ∧ ∀ c ∈ name, c = '_' := by
  have hnil := words_eq_nil_iff name
  have hhead := head?_words name
  have hparts := forall_mem_words_iff name
  rw [camel]
  -- without words the name is kept as it is, and only underscores make it an identifier
  split
  · next hwords =>
    rw [hnil.mp hwords]
    have hall := (words_eq_nil_iff_forall name).mp hwords
    constructor
    · intro hname
      refine .inr ⟨?_, fun c hc => ?_⟩
      · rintro rfl
        exact hname
      · refine (hall c hc).resolve_left fun hsep => ?_
        have hcontinues := (isIdentifierName_iff.mp hname).2 c hc
        rw [continuesIdentifier_eq_false_of_isSeparator hsep] at hcontinues
        cases hcontinues
    · rintro (⟨hnone, -⟩ | ⟨hne, hall⟩)
      · cases hnone
      · obtain ⟨first, rest, rfl⟩ := List.exists_cons_of_ne_nil hne
        have hunderscore : startsIdentifier '_' = true := by decide
        rw [List.forall_mem_cons] at hall
        rw [hall.1]
        refine ⟨hunderscore, fun c hc => ?_⟩
        rw [hall.2 c hc]
        exact continuesIdentifier_of_startsIdentifier hunderscore
  · next first rest hwords =>
    have hmem : first ∈ words name := hwords ▸ List.mem_cons_self
    obtain ⟨c, more, rfl⟩ := List.exists_cons_of_ne_nil (ne_nil_of_mem_words hmem)
    rw [hwords] at hparts hhead
    have hall : (∀ d ∈ Text.lower (c :: more) ++ rest.flatMap Text.capitalize,
        continuesIdentifier d = true) ↔ HasIdentifierParts name := by
      rw [← hparts, List.forall_mem_cons, List.forall_mem_append, Text.lower,
        forall_mem_lowerAfter_iff, List.forall_mem_flatMap]
      exact and_congr_right fun _ => forall₂_congr fun word _ => forall_mem_capitalize_iff word
    have hfirst : (Text.lower (c :: more) ++ rest.flatMap Text.capitalize).head?.map
        startsIdentifier = (leader? name).map startsIdentifier := by
      rw [← hhead, Text.lower,
        List.head?_append_of_ne_nil _ (lowerAfter_ne_nil _ (List.cons_ne_nil _ _))]
      exact head?_lowerAfter [] (c :: more)
    rw [isIdentifierName_iff, hall, hfirst]
    refine (or_iff_left fun hunderscores => ?_).symm
    have hwordless := (words_eq_nil_iff_forall name).mpr fun d hd => .inr (hunderscores.2 d hd)
    rw [hwords] at hwordless
    cases hwordless

/-! ## Words of small letters -/

theorem isAscii_of_isLower {c : Char} (h : c.isLower = true) : Text.isAscii c = true :=
  isAscii_of_isAlphanum (isAlphanum_iff.mpr (.inl (.inr h)))

theorem isSeparator_of_isLower {c : Char} (h : c.isLower = true) : isSeparator c = false := by
  have hlook := forall_ascii (p := fun c => !c.isLower || !isSeparator c) (by decide)
    (isAscii_of_isLower h)
  simpa [h] using hlook

theorem lower_eq_self {word : List Char} (hword : ∀ c ∈ word, c.isLower = true) :
    Text.lower word = word := by
  have hsame : ∀ c ∈ word, c.toLower = c := by
    intro c hc
    have hlook := forall_ascii (p := fun c => !c.isLower || c.toLower == c) (by decide)
      (isAscii_of_isLower (hword c hc))
    simpa [hword c hc] using hlook
  rw [Text.lower, Text.lowerAfter_of_ascii _ _ fun c hc => isAscii_of_isLower (hword c hc),
    List.map_congr_left hsame, List.map_id']

/-- Lower case writes nothing but small letters for letters and for the sign of the kelvin only. -/
theorem toLower_or_kelvin {c : Char} (h : ∀ d ∈ Text.lowerChar c, d.isLower = true) :
    Text.isAscii c = true ∧ Text.lowerChar c = [c.toLower] ∨ c = '\u212a' := by
  rcases Text.lowerChar_cases c with
    hascii | ⟨hascii, ⟨-, heq⟩ | ⟨code, hcode, heq⟩ | ⟨-, heq⟩⟩
  · exact .inl hascii
  · exact absurd (h '\u0307' (by simp [heq])) (by decide)
  · obtain ⟨first, last, step, image, hrun, hfirst, hlast, -, rfl⟩ :=
      Text.exists_run_of_imageInRuns (p := fun first last _ image =>
        Nat.ble 128 image || first == 0x212A && last == 0x212A) (by decide) hcode
    have hsmall := isAscii_of_isLower (h _ (heq ▸ List.mem_singleton_self _))
    rw [Text.isAscii, decide_eq_true_eq,
      Text.toNat_ofNat_of_areAlike (Text.areAlike_of_lowerRuns hcode)] at hsmall
    simp only [Bool.or_eq_true, Nat.ble_eq, Bool.and_eq_true, beq_iff_eq] at hrun
    have hnat : c.toNat = 0x212A := by omega
    rw [← Char.ofNat_toNat c, hnat]
    exact .inr rfl
  · rw [isAscii_of_isLower (h c (heq ▸ List.mem_singleton_self c))] at hascii
    cases hascii

theorem kelvin_not_mem_lowerChar (c : Char) : '\u212a' ∉ Text.lowerChar c := by
  rcases Text.lowerChar_cases c with
    ⟨hascii, heq⟩ | ⟨-, ⟨-, heq⟩ | ⟨code, hcode, heq⟩ | ⟨hnone, heq⟩⟩ <;>
    rw [heq]
  · have hlook := forall_ascii (p := fun c => decide ('\u212a' ∉ [c.toLower])) (by decide)
      hascii
    exact of_decide_eq_true hlook
  · decide
  · obtain ⟨first, last, step, image, hrun, hfirst, hlast, -, rfl⟩ :=
      Text.exists_run_of_imageInRuns (p := fun first last _ image =>
        Nat.blt 0x212A image || Nat.blt (image + (last - first)) 0x212A) (by decide) hcode
    intro hmem
    have hnat := Text.toNat_ofNat_of_areAlike (Text.areAlike_of_lowerRuns hcode)
    rw [← List.mem_singleton.mp hmem] at hnat
    have hkelvin : 0x212A = image + (c.toNat - first) := hnat
    simp only [Bool.or_eq_true, Nat.blt_eq] at hrun
    omega
  · intro hmem
    rw [← List.mem_singleton.mp hmem] at hnone
    exact absurd hnone (by decide)

/-- What is no capital and is nothing but small letters in lower case is so already. -/
theorem lowerAfter_eq_self {before cs : List Char}
    (hcs : ∀ c ∈ cs, c.isUpper = false ∧ c ≠ '\u212a')
    (h : ∀ d ∈ Text.lowerAfter before cs, d.isLower = true) : Text.lowerAfter before cs = cs := by
  induction cs generalizing before with
  | nil => rfl
  | cons c rest ih =>
    rw [List.forall_mem_cons] at hcs
    rw [Text.lowerAfter, List.forall_mem_append] at h
    obtain ⟨himage, hrest⟩ := h
    rw [Text.lowerAfter, ih hcs.2 hrest]
    split at himage
    · -- Neither small sigma is a letter of ASCII.
      split at himage
      · exact absurd (himage 'ς' List.mem_cons_self) (by decide)
      · exact absurd (himage 'σ' List.mem_cons_self) (by decide)
    · next hsigma =>
      obtain ⟨hascii, heq⟩ := (toLower_or_kelvin himage).resolve_right hcs.1.2
      have hlook := forall_ascii (p := fun c => c.isUpper || c.toLower == c) (by decide)
        hascii
      rw [hcs.1.1, Bool.false_or, beq_iff_eq] at hlook
      rw [if_neg hsigma, heq, hlook]
      rfl

/-- What is in lower case has no capital of ASCII, nor the sign of the kelvin. -/
theorem isUpper_of_mem_lowerAfter {before cs : List Char} {d : Char}
    (h : d ∈ Text.lowerAfter before cs) : d.isUpper = false ∧ d ≠ '\u212a' := by
  rcases Text.mem_lowerAfter h with rfl | rfl | ⟨c, -, h⟩
  · decide
  · decide
  · refine ⟨?_, ?_⟩
    · by_contra hupper
      rw [Bool.not_eq_false] at hupper
      have hascii := isAscii_of_isAlphanum (isAlphanum_iff.mpr (.inl (.inl hupper)))
      have hlook := forall_ascii
        (p := fun d => !d.isUpper || (Text.isUnmade d && d.toLower != d)) (by decide) hascii
      rw [hupper, Bool.not_true, Bool.false_or, Bool.and_eq_true, bne_iff_ne] at hlook
      rw [Text.eq_of_mem_lowerChar hlook.1 h, Text.lowerChar_of_isAscii hascii] at h
      exact hlook.2 (List.mem_singleton.mp h).symm
    · rintro rfl
      exact kelvin_not_mem_lowerChar c h

/-- A word in title case does not begin with a small letter. -/
theorem exists_mem_titleChar (c : Char) : ∃ d ∈ Text.titleChar c, d.isLower = false := by
  rcases Text.titleChar_cases c with
    ⟨hascii, heq⟩ | ⟨hascii, ⟨codes, hentry, heq⟩ | ⟨code, hcode, heq⟩ | ⟨-, heq⟩⟩ <;>
    rw [heq]
  · have hlook := forall_ascii (p := fun c => !c.toUpper.isLower) (by decide) hascii
    exact ⟨_, List.mem_singleton_self _, (Bool.not_eq_true' _).mp hlook⟩
  · have hsequences : Text.titleSequences.all (fun entry =>
        entry.2.any fun code => !(Char.ofNat code).isLower) = true := by decide
    obtain ⟨code, hcode, hnot⟩ := List.any_eq_true.mp (List.all_eq_true.mp hsequences _ hentry)
    exact ⟨_, List.mem_map_of_mem hcode, by simpa using hnot⟩
  · refine ⟨_, List.mem_singleton_self _, ?_⟩
    by_contra hlower
    rw [Bool.not_eq_false] at hlower
    have hascii := isAscii_of_isLower hlower
    have hlook := forall_ascii (p := fun d => !d.isLower || Nat.ble 97 d.toNat) (by decide)
      hascii
    rw [hlower, Bool.not_true, Bool.false_or, Nat.ble_eq] at hlook
    rw [Text.isAscii, decide_eq_true_eq] at hascii
    rcases Text.areAlike_of_titleRuns hcode with halike | ⟨-, rfl⟩
    · obtain ⟨first, last, step, image, hrun, hfirst, hlast, -, rfl⟩ :=
        Text.exists_run_of_imageInRuns (p := fun first last _ image =>
          Nat.ble 128 image || Nat.blt (image + (last - first)) 97) (by decide) hcode
      rw [Text.toNat_ofNat_of_areAlike halike] at hascii hlook
      simp only [Bool.or_eq_true, Nat.ble_eq, Nat.blt_eq] at hrun
      omega
    · exact absurd hascii (by decide)
  · refine ⟨c, List.mem_singleton_self c, ?_⟩
    by_contra hlower
    rw [isAscii_of_isLower (by simpa using hlower)] at hascii
    cases hascii

/-- A name is a text in snake case exactly if the text is its one word, for want of an underscore. -/
theorem snake_eq_iff {name word : List Char} (hne : word ≠ []) (hword : '_' ∉ word) :
    snake name = word ↔ words name = [word] := by
  rw [snake]
  constructor
  · rintro rfl
    cases hwords : words name with
    | nil =>
      rw [hwords] at hne
      exact absurd rfl hne
    | cons first rest =>
      have hrest : rest = [] := by
        by_contra hmore
        rw [hwords, Text.joinWith_cons first hmore] at hword
        exact hword (by simp)
      rw [hrest]
      rfl
  · intro hwords
    rw [hwords]
    rfl

/-- A name is a word of small letters in camel case exactly if that is its one word: a second word
would put a capital or another sign into it. -/
theorem camel_eq_iff {name word : List Char} (hne : word ≠ [])
    (hword : ∀ c ∈ word, c.isLower = true) : camel name = word ↔ words name = [word] := by
  rw [camel]
  cases hwords : words name with
  | nil =>
    refine iff_of_false ?_ (List.cons_ne_nil _ _).symm
    rintro rfl
    obtain ⟨c, rest, rfl⟩ := List.exists_cons_of_ne_nil hne
    rcases (words_eq_nil_iff_forall _).mp hwords c List.mem_cons_self with hsep | rfl
    · rw [isSeparator_of_isLower (hword c List.mem_cons_self)] at hsep
      cases hsep
    · exact absurd (hword '_' List.mem_cons_self) (by decide)
  | cons first rest =>
    show Text.lower first ++ rest.flatMap Text.capitalize = word ↔ first :: rest = [word]
    constructor
    · intro hcamel
      rw [← hcamel, List.forall_mem_append, List.forall_mem_flatMap] at hword
      -- a second word would bring a capital with it
      have hrest : rest = [] := by
        rw [List.eq_nil_iff_forall_not_mem]
        intro next hnext
        have hmem : next ∈ words name := hwords ▸ List.mem_cons_of_mem first hnext
        obtain ⟨c, more, rfl⟩ := List.exists_cons_of_ne_nil (ne_nil_of_mem_words hmem)
        obtain ⟨d, hd, hnot⟩ := exists_mem_titleChar c
        rw [hword.2 _ hnext d (List.mem_append_left _ hd)] at hnot
        cases hnot
      have hfirst : first ∈ words name := hwords ▸ List.mem_cons_self
      have hpiece := (List.mem_filter.mp hfirst).1
      have hself : Text.lower first = first := lowerAfter_eq_self
        (fun c hc => isUpper_of_mem_lowerAfter (Text.mem_of_mem_splitAt hpiece hc)) hword.1
      rw [← hcamel, hrest, hself, List.flatMap_nil, List.append_nil]
    · rintro ⟨⟩
      rw [lower_eq_self hword, List.flatMap_nil, List.append_nil]

/-- A name is a word of small letters in camel case exactly if it is in snake case. -/
theorem camel_eq_iff_snake_eq {name word : List Char} (hne : word ≠ [])
    (hword : ∀ c ∈ word, c.isLower = true) : camel name = word ↔ snake name = word := by
  have hunderscore : '_' ∉ word := fun hmem => absurd (hword '_' hmem) (by decide)
  rw [camel_eq_iff hne hword, snake_eq_iff hne hunderscore]

/-! ## Kebab case -/

/-- A kebab name that is not empty is cut into the words of the name. -/
theorem splitAt_kebab {name : List Char} (h : words name ≠ []) :
    Text.splitAt '-' (kebab name) = words name := by
  refine Text.splitAt_joinWith h fun word hword hmem => ?_
  have hsep := (mem_of_mem_words hword hmem (by decide)).2
  cases hsep

theorem kebab_eq_nil_iff (name : List Char) : kebab name = [] ↔ words name = [] := by
  constructor
  · intro hnil
    by_contra hwords
    have hsplit := splitAt_kebab hwords
    rw [hnil] at hsplit
    have hmem : [] ∈ words name := by
      rw [← hsplit]
      exact List.mem_singleton_self []
    exact ne_nil_of_mem_words hmem rfl
  · intro hwords
    rw [kebab, hwords]
    rfl

/-- Names of one kebab spelling have one in camel case as well, unless they have no words. -/
theorem camel_eq_of_kebab_eq {a b : List Char} (hwords : words a ≠ []) (h : kebab a = kebab b) :
    camel a = camel b := by
  have hb : words b ≠ [] := by
    rw [Ne, ← kebab_eq_nil_iff, ← h, kebab_eq_nil_iff]
    exact hwords
  have heq : words a = words b := by rw [← splitAt_kebab hwords, h, splitAt_kebab hb]
  rw [camel, camel, heq]
  split
  · next hnil => exact absurd hnil hb
  · rfl

end Naming
end SchemaTypings
