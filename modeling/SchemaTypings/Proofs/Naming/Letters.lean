/-
  SchemaTypings.Proofs.Naming.Letters

  What sanitising does to the letters and digits of a name: none is lost and none is added, only
  their case changes.  Capitals that are gone do not come back, so that a name that sanitising
  changes is not met again on the way from its image onwards.
-/
import SchemaTypings.Proofs.Naming.Identifier
import Mathlib

namespace SchemaTypings.Naming

/-! ## Letters and digits -/

/-- The letters and digits of a text, in lower case. -/
def letters (cs : List Char) : List Char := (cs.filter Char.isAlphanum).map Char.toLower

@[simp] theorem letters_nil : letters [] = [] := rfl

theorem letters_append (xs ys : List Char) : letters (xs ++ ys) = letters xs ++ letters ys := by
  rw [letters, List.filter_append, List.map_append]
  rfl

theorem letters_cons (c : Char) (cs : List Char) :
    letters (c :: cs) = (if c.isAlphanum then [c.toLower] else []) ++ letters cs := by
  unfold letters
  by_cases hc : c.isAlphanum = true <;> simp [hc]

theorem letters_eq_nil_iff {cs : List Char} :
    letters cs = [] ↔ ∀ c ∈ cs, c.isAlphanum = false := by
  simp [letters, List.filter_eq_nil_iff]

/-- Trimming off what is neither letter nor digit keeps both. -/
theorem letters_trimBoth {p : Char → Bool} (hp : ∀ c, p c = true → c.isAlphanum = false)
    (cs : List Char) : letters (Text.trimBoth p cs) = letters cs := by
  obtain ⟨dropped, heq, hdropped⟩ := Text.dropEndWhile_append_dropped p (cs.dropWhile p)
  have hfront : letters (cs.takeWhile p) = [] :=
    letters_eq_nil_iff.mpr fun c hc => hp c (List.mem_takeWhile_imp hc)
  have hback : letters dropped = [] :=
    letters_eq_nil_iff.mpr fun c hc => hp c (hdropped c hc)
  have hcs : letters cs = letters (cs.takeWhile p) ++ letters (cs.dropWhile p) := by
    rw [← letters_append, List.takeWhile_append_dropWhile]
  rw [Text.trimBoth, hcs, hfront, List.nil_append]
  conv_rhs => rw [heq, letters_append, hback, List.append_nil]

theorem not_isAlphanum_of_trimmed {c : Char} (h : (c = '_' || c = '-') = true) :
    c.isAlphanum = false := by
  simp only [Bool.or_eq_true, decide_eq_true_eq] at h
  rcases h with rfl | rfl <;> rfl

theorem letters_clean (name : List Char) : letters (clean name) = letters name := by
  rw [clean, letters_trimBoth fun c => not_isAlphanum_of_trimmed]
  induction name with
  | nil => rfl
  | cons c rest ih =>
    rw [List.map_cons, letters_cons, letters_cons, ih]
    congr 1
    by_cases hplain : isPlainChar c = true
    · rw [if_pos hplain]
    · -- What is not kept is no letter, and neither is the underscore in its place.
      have halnum : c.isAlphanum = false := by
        simp only [isPlainChar, Bool.or_eq_true, not_or] at hplain
        simpa using hplain.1.1
      rw [if_neg hplain, halnum]
      rfl

/-! ## Case -/

theorem toLower_eq_underscore_iff {c : Char} (h : Text.isAscii c = true) :
    c.toLower = '_' ↔ c = '_' := by
  have hlook := forall_ascii (p := fun c => decide (c.toLower = '_' ↔ c = '_')) (by decide) h
  simpa using hlook

theorem isAscii_toLower {c : Char} (h : Text.isAscii c = true) : Text.isAscii c.toLower = true := by
  have hlook := forall_ascii (p := fun c => Text.isAscii c.toLower) (by decide) h
  simpa using hlook

/-- A text with an underscore in front of each of its words, written with a capital where a word
begins and small letters elsewhere.  The first argument tells whether a word begins in front. -/
def recase : Bool → List Char → List Char
  | _, [] => []
  | start, c :: rest =>
    if c = '_' then recase true rest
    else (if start then c.toUpper else c.toLower) :: recase false rest

/-- Capitalising the pieces between underscores is one walk through the text. -/
theorem flatMap_capitalize_splitAt {marked : List Char}
    (hmarked : ∀ c ∈ marked, Text.isAscii c = true) :
    ∃ first pieces, Text.splitAt '_' (marked.map Char.toLower) = first :: pieces ∧
      first ++ (pieces.filter (· ≠ [])).flatMap Text.capitalize = recase false marked ∧
      ((first :: pieces).filter (· ≠ [])).flatMap Text.capitalize = recase true marked := by
  -- a mark begins a new piece where `recase` begins a new word
  induction marked with
  | nil => exact ⟨[], [], rfl, rfl, rfl⟩
  | cons c rest ih =>
    rw [List.forall_mem_cons] at hmarked
    obtain ⟨first, pieces, hsplit, hinside, hstart⟩ := ih hmarked.2
    by_cases hc : c = '_'
    · subst hc
      refine ⟨[], first :: pieces, ?_, ?_, ?_⟩
      · have hlower : Char.toLower '_' = '_' := rfl
        rw [List.map_cons, hlower, Text.splitAt_sep_cons, hsplit]
      · rw [recase, if_pos rfl, ← hstart, List.nil_append]
      · rw [recase, if_pos rfl, ← hstart]
        rfl
    · have hne : c.toLower ≠ '_' := fun heq => hc ((toLower_eq_underscore_iff hmarked.1).mp heq)
      refine ⟨c.toLower :: first, pieces, ?_, ?_, ?_⟩
      · rw [List.map_cons, Text.splitAt_cons_of_ne hne hsplit]
      · rw [recase, if_neg hc, List.cons_append, hinside]
        rfl
      · -- The first piece is in lower case already; only its first letter changes.
        have hfirst : ∀ d ∈ first, Text.isAscii d = true ∧ d.toLower = d := by
          intro d hd
          have hmem : d ∈ rest.map Char.toLower :=
            Text.mem_of_mem_splitAt (hsplit ▸ List.mem_cons_self) hd
          obtain ⟨e, he, rfl⟩ := List.mem_map.mp hmem
          exact ⟨isAscii_toLower (hmarked.2 e he), e.toLower_toLower_eq_toLower⟩
        have hcapital : Text.capitalize (c.toLower :: first) = c.toUpper :: first := by
          rw [Text.capitalize, Text.titleChar_of_isAscii (isAscii_toLower hmarked.1),
            Text.lowerAfter_of_ascii _ _ fun d hd => (hfirst d hd).1, c.toUpper_toLower_eq_toUpper,
            List.map_congr_left fun d hd => (hfirst d hd).2, List.map_id']
          rfl
        rw [recase, if_neg hc, if_pos rfl, List.filter_cons_of_pos (by simp), List.flatMap_cons,
          hcapital, List.cons_append, hinside]

/-- A plain name in pascal case. -/
theorem pascal_eq_recase {name : List Char} (hname : ∀ c ∈ name, isPlainChar c = true) :
    pascal name = recase true (markWords (unifySeparators name)) := by
  have hascii : ∀ c ∈ markWords (unifySeparators name), Text.isAscii c = true :=
    fun c => isAscii_of_mem_markWords hname
  obtain ⟨first, pieces, hsplit, -, hstart⟩ := flatMap_capitalize_splitAt hascii
  rw [pascal, words, Text.lower, Text.lowerAfter_of_ascii _ _ hascii, hsplit, hstart]

theorem letters_recase {marked : List Char} (hmarked : ∀ c ∈ marked, Text.isAscii c = true)
    (start : Bool) : letters (recase start marked) = letters marked := by
  induction marked generalizing start with
  | nil => rfl
  | cons c rest ih =>
    rw [List.forall_mem_cons] at hmarked
    by_cases hc : c = '_'
    · subst hc
      rw [recase, if_pos rfl, ih hmarked.2, letters_cons]
      rfl
    · have hcase : ∀ d, d = c.toUpper ∨ d = c.toLower →
          d.isAlphanum = c.isAlphanum ∧ d.toLower = c.toLower := by
        have hlook := forall_ascii (p := fun c => decide
          ((c.toUpper.isAlphanum = c.isAlphanum ∧ c.toUpper.toLower = c.toLower) ∧
            c.toLower.isAlphanum = c.isAlphanum ∧ c.toLower.toLower = c.toLower))
          (by decide) hmarked.1
        rintro d (rfl | rfl)
        · exact (of_decide_eq_true hlook).1
        · exact (of_decide_eq_true hlook).2
      obtain ⟨halnum, hlower⟩ := hcase (if start then c.toUpper else c.toLower)
        (by cases start <;> simp)
      rw [recase, if_neg hc, letters_cons, letters_cons, ih hmarked.2, halnum, hlower]

theorem letters_markWords (cs : List Char) : letters (markWords cs) = letters cs := by
  induction cs using markWords.induct with
  | case1 x y rest hbegins ih =>
    have hmark : letters ('_' :: markWords (y :: rest)) = letters (markWords (y :: rest)) := by
      rw [letters_cons]
      rfl
    rw [markWords, if_pos hbegins, letters_cons, hmark, ih, letters_cons x]
  | case2 x y rest hbegins ih =>
    rw [markWords, if_neg hbegins, letters_cons, ih, letters_cons x]
  | case3 cs hshort =>
    rw [markWords.eq_def]
    split
    · exact absurd rfl (hshort _ _ _)
    · rfl

theorem not_isSeparator_of_isAlphanum {c : Char} (h : c.isAlphanum = true) :
    isSeparator c = false := by
  have hlook := forall_ascii (p := fun c => !c.isAlphanum || !isSeparator c) (by decide)
    (isAscii_of_isAlphanum h)
  simpa [h] using hlook

theorem letters_unifySeparators (cs : List Char) : letters (unifySeparators cs) = letters cs := by
  induction cs with
  | nil => rfl
  | cons c rest ih =>
    rw [unifySeparators, List.map_cons, letters_cons, letters_cons, ← ih]
    congr 1
    by_cases hsep : isSeparator c = true
    · have halnum : c.isAlphanum = false := by
        by_contra h
        rw [not_isSeparator_of_isAlphanum (by simpa using h)] at hsep
        cases hsep
      rw [if_pos hsep, halnum]
      rfl
    · rw [if_neg hsep]

/-- Pascal case keeps the letters and digits of a cleaned name. -/
theorem letters_pascal_clean (name : List Char) : letters (pascal (clean name)) = letters name := by
  have hplain : ∀ c ∈ clean name, isPlainChar c = true := fun c => isPlainChar_of_mem_clean
  rw [pascal_eq_recase hplain, letters_recase fun c => isAscii_of_mem_markWords hplain,
    letters_markWords, letters_unifySeparators, letters_clean]

/-! ## Sanitised names -/

/-- Nothing is left of a cleaned name without words, since only a letter or digit can begin it. -/
theorem clean_eq_nil_of_words {name : List Char} (h : words (clean name) = []) :
    clean name = [] := by
  have hletters : letters (clean name) = [] := by
    rw [letters_clean, ← letters_pascal_clean, pascal, h]
    rfl
  cases hclean : clean name with
  | nil => rfl
  | cons c rest =>
    have hmem : c ∈ clean name := hclean ▸ List.mem_cons_self
    have halnum := letters_eq_nil_iff.mp hletters c hmem
    have hplain := isPlainChar_of_mem_clean hmem
    rw [clean, Text.trimBoth] at hclean
    obtain ⟨dropped, heq, -⟩ := Text.dropEndWhile_append_dropped (fun c => c = '_' || c = '-')
      ((name.map fun c => if isPlainChar c then c else '_').dropWhile fun c => c = '_' || c = '-')
    have hkept := List.head?_dropWhile_not (fun c => c = '_' || c = '-')
      (name.map fun c => if isPlainChar c then c else '_')
    rw [heq, hclean, List.cons_append, List.head?_cons] at hkept
    rw [isPlainChar, halnum, Bool.false_or] at hplain
    cases hplain.symm.trans hkept

/-- A cleaned name is spelled with letters, digits and underscores, unless its words are joined by
hyphens. -/
theorem isNameChar_of_mem_apply {spelling : Spelling} (hspelling : spelling ≠ .kebab)
    {name : List Char} {c : Char} (hc : c ∈ spelling.apply (clean name)) : isNameChar c = true := by
  have hword : ∀ word ∈ words (clean name), ∀ d ∈ word, isNameChar d = true := by
    intro word hword d hd
    have hpart := isWordChar_of_mem_words (fun e => isPlainChar_of_mem_clean) hword hd
    rw [isWordChar, Bool.or_eq_true] at hpart
    rw [isNameChar, isAlphanum_iff.mpr (hpart.imp_left .inr), Bool.true_or]
  have hsnake : ∀ d ∈ snake (clean name), isNameChar d = true := by
    intro d hd
    rcases Text.mem_of_mem_joinWith hd with hsep | ⟨word, hmem, hd⟩
    · rw [List.mem_singleton.mp hsep]
      rfl
    · exact hword word hmem d hd
  have hpascal : ∀ d ∈ pascal (clean name), isNameChar d = true := by
    intro d hd
    rw [isNameChar, isAlphanum_of_mem_pascal_clean hd, Bool.true_or]
  have hcase : ∀ d, isNameChar d = true →
      isNameChar d.toLower = true ∧ isNameChar d.toUpper = true := by
    intro d hd
    have hlook := forall_ascii
      (p := fun d => !isNameChar d || (isNameChar d.toLower && isNameChar d.toUpper)) (by decide)
      (isAscii_of_isNameChar hd)
    rw [hd] at hlook
    exact Bool.and_eq_true_iff.mp hlook
  -- the other spellings only change the case of what the snake or the pascal one has
  cases spelling with
  | snake => exact hsnake c hc
  | pascal => exact hpascal c hc
  | kebab => exact absurd rfl hspelling
  | screamingSnake =>
    obtain ⟨d, hd, hc⟩ := List.mem_flatMap.mp hc
    rw [Text.upperChar, if_pos (isAscii_of_isNameChar (hsnake d hd)), List.mem_singleton] at hc
    exact hc ▸ (hcase d (hsnake d hd)).2
  | camel =>
    rw [Spelling.apply, camel] at hc
    split at hc
    · next hnone =>
      rw [clean_eq_nil_of_words hnone] at hc
      cases hc
    · next first rest hwords =>
      rcases List.mem_append.mp hc with hc | hc
      · have hfirst := hword first (hwords ▸ List.mem_cons_self)
        rw [Text.lower, Text.lowerAfter_of_ascii _ _ fun d hd =>
          isAscii_of_isNameChar (hfirst d hd)] at hc
        obtain ⟨d, hd, rfl⟩ := List.mem_map.mp hc
        exact (hcase d (hfirst d hd)).1
      · refine hpascal c ?_
        rw [pascal, hwords, List.flatMap_cons]
        exact List.mem_append_right _ hc

/-- A sanitised name is a row of name characters. -/
theorem isName_sanitizeChars (v : Vocabulary) {spelling : Spelling} (h : spelling ≠ .kebab)
    (name : List Char) : IsName (sanitizeChars v spelling ['_'] name) := by
  have hword : IsName (anchor (spelling.apply (clean name))) :=
    isName_anchor fun c => isNameChar_of_mem_apply h
  unfold sanitizeChars
  dsimp only
  split
  · exact hword.append (List.all_eq_true.mp (by decide))
  · exact hword

/-- A word as it is handed out: anchored, and with an underscore behind it if it is in the
vocabulary. -/
def finish (v : Vocabulary) (word : List Char) : List Char :=
  if v.has (anchor word) then anchor word ++ ['_'] else anchor word

theorem sanitizeChars_eq_finish (v : Vocabulary) (name : List Char) :
    sanitizeChars v .pascal ['_'] name = finish v (pascal (clean name)) := rfl

theorem letters_finish (v : Vocabulary) (word : List Char) :
    letters (finish v word) = if word = [] then "field".toList else letters word := by
  have hsuffix : letters (finish v word) = letters (anchor word) := by
    unfold finish
    split
    · rw [letters_append]
      exact List.append_nil _
    · rfl
  rw [hsuffix]
  cases word with
  | nil => rfl
  | cons c rest =>
    rw [if_neg (List.cons_ne_nil _ _), anchor]
    split
    · rw [letters_cons]
      rfl
    · rfl

/-- Sanitising keeps the letters and digits of a name that has any. -/
theorem letters_sanitizeChars (v : Vocabulary) (name : List Char) :
    letters (sanitizeChars v .pascal ['_'] name) =
      if letters name = [] then "field".toList else letters name := by
  have hletters := letters_pascal_clean name
  have hnil : pascal (clean name) = [] ↔ letters name = [] := by
    rw [← hletters]
    constructor
    · intro heq
      rw [heq]
      rfl
    · intro heq
      rw [letters_eq_nil_iff] at heq
      rw [List.eq_nil_iff_forall_not_mem]
      intro c hc
      have halnum := isAlphanum_of_mem_pascal_clean hc
      rw [heq c hc] at halnum
      cases halnum
  rw [sanitizeChars_eq_finish, letters_finish, hletters]
  by_cases h : letters name = []
  · rw [if_pos (hnil.mpr h), if_pos h]
  · rw [if_neg fun heq => h (hnil.mp heq), if_neg h]

theorem letters_numbered (word : String) (n : Nat) :
    letters (numbered word n).toList = letters word.toList ++ Nat.toDigits 10 n := by
  rw [toList_numbered, letters_append]
  congr 1
  have hdigits : ∀ c ∈ Nat.toDigits 10 n, c.isAlphanum = true ∧ c.toLower = c := by
    intro c hc
    have hdigit := Nat.isDigit_of_mem_toDigits (by decide) (by decide) hc
    have halnum : c.isAlphanum = true := by simp [Char.isAlphanum, hdigit]
    have hlook := forall_ascii (p := fun c => !c.isDigit || decide (c.toLower = c))
      (by decide) (isAscii_of_isAlphanum halnum)
    exact ⟨halnum, by simpa [hdigit] using hlook⟩
  rw [letters, List.filter_eq_self.mpr fun c hc => (hdigits c hc).1,
    List.map_congr_left fun c hc => (hdigits c hc).2, List.map_id']

/-! ## Capitals -/

/-- Whether a character is another or the small form of it, a capital. -/
def Lowers (a b : Char) : Prop := b = a ∨ (a.isUpper = true ∧ b.isUpper = false)

/-- The number of capitals. -/
def capitals (cs : List Char) : Nat := cs.countP Char.isUpper

theorem capitals_le_of_forall₂ {xs ys : List Char} (h : List.Forall₂ Lowers xs ys) :
    capitals ys ≤ capitals xs ∧ (capitals xs ≤ capitals ys → ys = xs) := by
  induction h with
  | nil => exact ⟨Nat.le_refl _, fun _ => rfl⟩
  | @cons a b xs ys hab _ ih =>
    simp only [capitals, List.countP_cons] at ih ⊢
    rcases hab with rfl | ⟨ha, hb⟩
    · refine ⟨by omega, fun hle => ?_⟩
      rw [ih.2 (by omega)]
    · rw [ha, hb]
      refine ⟨by simp; omega, fun hle => ?_⟩
      simp at hle
      omega

/-- Where a text does not begin with a small letter, recasing its marked words only takes capitals
away. -/
theorem forall₂_recase_markWords {cs : List Char} (hcs : ∀ c ∈ cs, c.isAlphanum = true)
    (start : Bool) (hstart : start = true → ∀ c ∈ cs.head?, c.isLower = false) :
    List.Forall₂ Lowers cs (recase start (markWords cs)) := by
  have hcase : ∀ (c : Char) (start : Bool), c.isAlphanum = true →
      (start = true → c.isLower = false) →
      c ≠ '_' ∧ Lowers c (if start then c.toUpper else c.toLower) := by
    intro c start halnum hlower
    have hlook := forall_ascii (p := fun c => !c.isAlphanum || decide (c ≠ '_' ∧
      (c.isLower = false → c.toUpper = c) ∧
        (c.toLower = c ∨ (c.isUpper = true ∧ c.toLower.isUpper = false)))) (by decide)
      (isAscii_of_isAlphanum halnum)
    rw [halnum] at hlook
    simp only [Bool.not_true, Bool.false_or, decide_eq_true_eq] at hlook
    obtain ⟨hne, hupper, hdown⟩ := hlook
    refine ⟨hne, ?_⟩
    cases start with
    | true => exact .inl (hupper (hlower rfl))
    | false => exact hdown
  induction cs using markWords.induct generalizing start with
  | case1 x y rest hbegins ih =>
    rw [List.forall_mem_cons] at hcs
    obtain ⟨hne, hx⟩ := hcase x start hcs.1 fun h => hstart h x rfl
    rw [markWords, if_pos hbegins, recase, if_neg hne, recase, if_pos rfl]
    refine .cons hx (ih hcs.2 true fun _ c hc => ?_)
    -- A capital begins the word, so no small letter does.
    cases hc
    simp only [beginsWord, Bool.and_eq_true] at hbegins
    have hlook := forall_ascii (p := fun c => !c.isUpper || !c.isLower) (by decide)
      (isAscii_of_isAlphanum (hcs.2 y List.mem_cons_self))
    simpa [hbegins.1] using hlook
  | case2 x y rest hbegins ih =>
    rw [List.forall_mem_cons] at hcs
    obtain ⟨hne, hx⟩ := hcase x start hcs.1 fun h => hstart h x rfl
    rw [markWords, if_neg hbegins, recase, if_neg hne]
    exact .cons hx (ih hcs.2 false fun h => by cases h)
  | case3 cs hshort =>
    rcases cs with _ | ⟨x, _ | ⟨y, rest⟩⟩
    · exact .nil
    · obtain ⟨hne, hx⟩ := hcase x start (hcs x (List.mem_singleton_self x)) fun h => hstart h x rfl
      rw [markWords.eq_def]
      simp only
      rw [recase, if_neg hne]
      exact .cons hx .nil
    · exact absurd rfl (hshort x y rest)

/-- A row of letters and digits that does not begin with a small letter. -/
structure IsCapitalised (word : List Char) : Prop where
  all_alphanum : ∀ c ∈ word, c.isAlphanum = true
  head_not_lower : ∀ c ∈ word.head?, c.isLower = false

/-- Pascal case takes capitals away from a capitalised word, or leaves it as it is. -/
theorem capitals_pascal_le {word : List Char} (h : IsCapitalised word) :
    capitals (pascal word) ≤ capitals word ∧
      (capitals word ≤ capitals (pascal word) → pascal word = word) := by
  have hplain : ∀ c ∈ word, isPlainChar c = true := by
    intro c hc
    simp [isPlainChar, h.all_alphanum c hc]
  have hunify : unifySeparators word = word := by
    have hid : ∀ c ∈ word, (if isSeparator c then '_' else c) = c := by
      intro c hc
      rw [not_isSeparator_of_isAlphanum (h.all_alphanum c hc)]
      rfl
    rw [unifySeparators, List.map_congr_left hid, List.map_id']
  rw [pascal_eq_recase hplain, hunify]
  exact capitals_le_of_forall₂ (forall₂_recase_markWords h.all_alphanum true fun _ => h.head_not_lower)

/-- Pascal case capitalises a cleaned name. -/
theorem isCapitalised_pascal_clean (name : List Char) : IsCapitalised (pascal (clean name)) := by
  refine ⟨fun c => isAlphanum_of_mem_pascal_clean, ?_⟩
  have hplain : ∀ c ∈ clean name, isPlainChar c = true := fun c => isPlainChar_of_mem_clean
  rw [pascal_eq_recase hplain]
  have hascii : ∀ c ∈ markWords (unifySeparators (clean name)), Text.isAscii c = true :=
    fun c => isAscii_of_mem_markWords hplain
  -- Underscores in front are passed over; the first of the others is written as a capital.
  generalize markWords (unifySeparators (clean name)) = marked at hascii
  induction marked with
  | nil => simp [recase]
  | cons c rest ih =>
    rw [List.forall_mem_cons] at hascii
    rw [recase]
    split
    · exact ih hascii.2
    · intro d hd
      cases hd
      exact c.isLower_toUpper_eq_false

/-! ## Cleaning again -/

theorem dropEndWhile_eq_self {p : Char → Bool} {xs : List Char} (hxs : ∀ c ∈ xs, p c = false) :
    Text.dropEndWhile p xs = xs := by
  induction xs with
  | nil => rfl
  | cons c rest ih =>
    rw [List.forall_mem_cons] at hxs
    rw [Text.dropEndWhile, ih hxs.2, hxs.1]
    cases rest <;> rfl

/-- What is neither letter nor digit is of no use behind a name. -/
theorem clean_append (name : List Char) {more : List Char} (h : letters more = []) :
    clean (name ++ more) = clean name := by
  have htrimmed : ∀ c ∈ more.map fun c => if isPlainChar c then c else '_',
      (c = '_' || c = '-') = true := by
    intro c hc
    obtain ⟨d, hd, rfl⟩ := List.mem_map.mp hc
    have halnum := letters_eq_nil_iff.mp h d hd
    by_cases hplain : isPlainChar d = true
    · rw [if_pos hplain]
      simpa [isPlainChar, halnum] using hplain
    · rw [if_neg hplain]
      rfl
  rw [clean, clean, List.map_append, Text.trimBoth, Text.trimBoth]
  generalize (more.map fun c => if isPlainChar c then c else '_') = tail at htrimmed
  induction name.map fun c => if isPlainChar c then c else '_' with
  | nil =>
    have hnil : tail.dropWhile (fun c => c = '_' || c = '-') = [] :=
      List.dropWhile_eq_nil_iff.mpr htrimmed
    rw [List.nil_append, hnil]
    rfl
  | cons c rest ih =>
    rw [List.cons_append, List.dropWhile_cons, List.dropWhile_cons]
    split
    · exact ih
    · exact Text.dropEndWhile_append (c :: rest) htrimmed

/-- Cleaning takes off what finishing has put around a word. -/
theorem clean_finish (v : Vocabulary) {word : List Char} (hne : word ≠ [])
    (h : IsCapitalised word) : clean (finish v word) = word := by
  obtain ⟨c, rest, rfl⟩ := List.exists_cons_of_ne_nil hne
  have hplain : ∀ d ∈ c :: rest, isPlainChar d = true ∧ (d = '_' || d = '-') = false := by
    intro d hd
    have hlook := forall_ascii (p := fun c => !c.isAlphanum ||
      (isPlainChar c && !(c = '_' || c = '-'))) (by decide)
      (isAscii_of_isAlphanum (h.all_alphanum d hd))
    simpa [h.all_alphanum d hd] using hlook
  have hmap : (c :: rest).map (fun c => if isPlainChar c then c else '_') = c :: rest := by
    rw [List.map_congr_left fun d hd => if_pos (hplain d hd).1, List.map_id']
  have hword : clean (c :: rest) = c :: rest := by
    rw [clean, hmap, Text.trimBoth, List.dropWhile_cons,
      if_neg (by simp [(hplain c List.mem_cons_self).2]),
      dropEndWhile_eq_self fun d hd => (hplain d hd).2]
  have hanchor : clean (anchor (c :: rest)) = c :: rest := by
    rw [anchor]
    split
    · have htrim : clean ('_' :: c :: rest) = clean (c :: rest) := rfl
      rw [htrim, hword]
    · exact hword
  unfold finish
  split
  · rw [clean_append _ (by decide), hanchor]
  · exact hanchor

end SchemaTypings.Naming
