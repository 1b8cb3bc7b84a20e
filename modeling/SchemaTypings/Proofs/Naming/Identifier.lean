/-
  SchemaTypings.Proofs.Naming.Identifier

  What a sanitizer hands out: ASCII identifiers outside its vocabulary, none of them twice.
-/
import SchemaTypings.Naming.Sanitizer
import SchemaTypings.Proofs.Text.Pieces
import Mathlib.Data.List.Nodup
import Mathlib.Data.List.Perm.Subperm

namespace SchemaTypings.Naming

/-! ## ASCII characters -/

/-- What a look at all ASCII characters shows of one of them. -/
theorem forall_ascii {p : Char → Bool}
    (h : (List.range 128).all (fun n => p (Char.ofNat n)) = true) {c : Char}
    (hc : Text.isAscii c = true) : p c = true := by
  have hlt : c.toNat < 128 := of_decide_eq_true hc
  have hp := List.all_eq_true.mp h c.toNat (List.mem_range.mpr hlt)
  rwa [Char.ofNat_toNat] at hp

theorem isAlphanum_iff {c : Char} : c.isAlphanum = true ↔
    (c.isUpper = true ∨ c.isLower = true) ∨ c.isDigit = true := by
  rw [← Bool.or_eq_true, ← Bool.or_eq_true]
  exact Iff.rfl

theorem isAscii_of_isAlphanum {c : Char} (h : c.isAlphanum = true) : Text.isAscii c = true := by
  have hle : c.val ≤ 122 := by
    rcases isAlphanum_iff.mp h with (hupper | hlower) | hdigit
    · have hrange : c.val ≥ 65 ∧ c.val ≤ 90 := of_decide_eq_true hupper
      exact UInt32.le_trans hrange.2 (by decide)
    · have hrange : (decide (c.val ≥ 97) && decide (c.val ≤ 122)) = true := hlower
      exact of_decide_eq_true (Bool.and_eq_true_iff.mp hrange).2
    · have hrange : (decide (c.val ≥ 48) && decide (c.val ≤ 57)) = true := hdigit
      exact UInt32.le_trans (of_decide_eq_true (Bool.and_eq_true_iff.mp hrange).2) (by decide)
  have hlt : c.toNat ≤ 122 := UInt32.le_iff_toNat_le.mp hle
  exact decide_eq_true (by omega)

/-- A small letter or a digit. -/
def isWordChar (c : Char) : Bool := c.isLower || c.isDigit

/-! ## Words -/

theorem mem_of_mem_trimBoth {p : Char → Bool} {cs : List Char} {c : Char}
    (h : c ∈ Text.trimBoth p cs) : c ∈ cs := by
  obtain ⟨dropped, heq, -⟩ := Text.dropEndWhile_append_dropped p (cs.dropWhile p)
  have hmem : c ∈ cs.dropWhile p := by
    rw [heq]
    exact List.mem_append_left _ h
  exact (List.dropWhile_sublist p).subset hmem

/-- A cleaned name has plain characters only. -/
theorem isPlainChar_of_mem_clean {name : List Char} {c : Char} (h : c ∈ clean name) :
    isPlainChar c = true := by
  obtain ⟨d, -, rfl⟩ := List.mem_map.mp (mem_of_mem_trimBoth h)
  split
  · next hd => exact hd
  · rfl

theorem mem_markWords {cs : List Char} {c : Char} (h : c ∈ markWords cs) : c = '_' ∨ c ∈ cs := by
  induction cs using markWords.induct with
  | case1 x y rest hbegins ih =>
    rw [markWords, if_pos hbegins] at h
    simp only [List.mem_cons] at h ih ⊢
    rcases h with h | h | h
    · exact .inr (.inl h)
    · exact .inl h
    · rcases ih h with h | h | h
      · exact .inl h
      · exact .inr (.inr (.inl h))
      · exact .inr (.inr (.inr h))
  | case2 x y rest hbegins ih =>
    rw [markWords, if_neg hbegins] at h
    simp only [List.mem_cons] at h ih ⊢
    rcases h with h | h
    · exact .inr (.inl h)
    · rcases ih h with h | h | h
      · exact .inl h
      · exact .inr (.inr (.inl h))
      · exact .inr (.inr (.inr h))
  | case3 cs hshort =>
    rw [markWords.eq_def] at h
    split at h
    · exact absurd rfl (hshort _ _ _)
    · exact .inr h

/-- Where the words of a plain name are marked there are letters, digits and underscores. -/
theorem mem_markWords_of_isPlainChar {name : List Char} (hname : ∀ c ∈ name, isPlainChar c = true)
    {d : Char} (hd : d ∈ markWords (unifySeparators name)) : d = '_' ∨ d.isAlphanum = true := by
  rcases mem_markWords hd with rfl | hd
  · exact .inl rfl
  · obtain ⟨e, he, rfl⟩ := List.mem_map.mp hd
    split
    · exact .inl rfl
    · next hsep =>
      have hplain := hname e he
      simp only [isPlainChar, Bool.or_eq_true, decide_eq_true_eq] at hplain
      rcases hplain with (halnum | rfl) | rfl
      · exact .inr halnum
      · exact .inl rfl
      · exact absurd rfl hsep

theorem isAscii_of_mem_markWords {name : List Char} (hname : ∀ c ∈ name, isPlainChar c = true)
    {d : Char} (hd : d ∈ markWords (unifySeparators name)) : Text.isAscii d = true := by
  rcases mem_markWords_of_isPlainChar hname hd with rfl | halnum
  · rfl
  · exact isAscii_of_isAlphanum halnum

/-- The words of a plain name are made of small letters and digits. -/
theorem isWordChar_of_mem_words {name : List Char} (hname : ∀ c ∈ name, isPlainChar c = true)
    {word : List Char} (hword : word ∈ words name) {c : Char} (hc : c ∈ word) :
    isWordChar c = true := by
  have hpiece := (List.mem_filter.mp hword).1
  have hne : c ≠ '_' := fun heq => underscore_not_mem_of_mem_words hword (heq ▸ hc)
  have hmem := Text.mem_of_mem_splitAt hpiece hc
  rw [Text.lower, Text.lowerAfter_of_ascii _ _ fun _ => isAscii_of_mem_markWords hname] at hmem
  obtain ⟨d, hd, rfl⟩ := List.mem_map.mp hmem
  rcases mem_markWords_of_isPlainChar hname hd with rfl | halnum
  · exact absurd rfl hne
  · have hlook := forall_ascii (p := fun d => !d.isAlphanum || isWordChar d.toLower)
      (by decide) (isAscii_of_isAlphanum halnum)
    simpa [halnum] using hlook

/-! ## Pascal case -/

/-- A capitalised word of small letters and digits is made of letters and digits. -/
theorem isAlphanum_of_mem_capitalize {word : List Char} (hword : ∀ c ∈ word, isWordChar c = true)
    {c : Char} (hc : c ∈ Text.capitalize word) : c.isAlphanum = true := by
  have hascii : ∀ d, isWordChar d = true → Text.isAscii d = true := by
    intro d hd
    refine isAscii_of_isAlphanum ?_
    simp only [isWordChar, Bool.or_eq_true] at hd
    exact isAlphanum_iff.mpr (hd.imp_left Or.inr)
  cases word with
  | nil => cases hc
  | cons first rest =>
    rw [List.forall_mem_cons] at hword
    rw [Text.capitalize, Text.titleChar_of_isAscii (hascii _ hword.1),
      Text.lowerAfter_of_ascii _ _ fun d hd => hascii d (hword.2 d hd), List.mem_append,
      List.mem_singleton, List.mem_map] at hc
    rcases hc with rfl | ⟨d, hd, rfl⟩
    · have hlook := forall_ascii (p := fun d => !isWordChar d || d.toUpper.isAlphanum)
        (by decide) (hascii _ hword.1)
      simpa [hword.1] using hlook
    · have hlook := forall_ascii (p := fun d => !isWordChar d || d.toLower.isAlphanum)
        (by decide) (hascii _ (hword.2 d hd))
      simpa [hword.2 d hd] using hlook

theorem isAlphanum_of_mem_pascal_clean {name : List Char} {c : Char}
    (hc : c ∈ pascal (clean name)) : c.isAlphanum = true := by
  obtain ⟨word, hword, hc⟩ := List.mem_flatMap.mp hc
  exact isAlphanum_of_mem_capitalize
    (fun d hd => isWordChar_of_mem_words (fun e he => isPlainChar_of_mem_clean he) hword hd) hc

/-! ## Sanitised names -/

/-- A character of a declared name: a letter, a digit or an underscore. -/
def isNameChar (c : Char) : Bool := c.isAlphanum || c = '_'

theorem isAscii_of_isNameChar {c : Char} (h : isNameChar c = true) : Text.isAscii c = true := by
  rw [isNameChar, Bool.or_eq_true, decide_eq_true_eq] at h
  rcases h with halnum | rfl
  · exact isAscii_of_isAlphanum halnum
  · rfl

/-- A row of name characters that does not begin with a digit. -/
structure IsName (name : List Char) : Prop where
  ne_nil : name ≠ []
  head_not_digit : ∀ c ∈ name.head?, c.isDigit = false
  all_nameChar : ∀ c ∈ name, isNameChar c = true

theorem IsName.append {name more : List Char} (h : IsName name)
    (hmore : ∀ c ∈ more, isNameChar c = true) : IsName (name ++ more) := by
  refine ⟨by simp [h.ne_nil], ?_, ?_⟩
  · rw [List.head?_append_of_ne_nil _ h.ne_nil]
    exact h.head_not_digit
  · intro c hc
    rcases List.mem_append.mp hc with hc | hc
    · exact h.all_nameChar c hc
    · exact hmore c hc

theorem isName_anchor {name : List Char} (h : ∀ c ∈ name, isNameChar c = true) :
    IsName (anchor name) := by
  cases name with
  | nil => exact ⟨by decide, fun c hc => Option.some.inj hc ▸ by decide, List.all_eq_true.mp (by decide)⟩
  | cons first rest =>
    rw [anchor]
    split
    · refine ⟨by simp, by simp, ?_⟩
      rw [List.forall_mem_cons]
      exact ⟨by decide, h⟩
    · next hdigit => exact ⟨by simp, by simpa using hdigit, h⟩

/-- A sanitised name is outside the vocabulary, or ends in the suffix. -/
theorem has_sanitizeChars (v : Vocabulary) (spelling : Spelling) (name : List Char) :
    v.has (sanitizeChars v spelling ['_'] name) = false ∨
      (sanitizeChars v spelling ['_'] name).getLast? = some '_' := by
  unfold sanitizeChars
  dsimp only
  split
  · exact .inr (by simp)
  · next hnot => exact .inl (by simpa using hnot)

/-! ## Free names -/

theorem toList_natText (n : Nat) : (natText n).toList = Nat.toDigits 10 n := by
  rw [natText, String.toList_ofList]

theorem toList_numbered (word : String) (n : Nat) :
    (numbered word n).toList = word.toList ++ Nat.toDigits 10 n := by
  rw [numbered, String.toList_append, toList_natText]

/-- A name with a counter behind it is a name that ends in a digit. -/
theorem IsName.numbered {word : String} (h : IsName word.toList) (n : Nat) :
    IsName (numbered word n).toList ∧
      ∃ last, (Naming.numbered word n).toList.getLast? = some last ∧ last.isDigit = true := by
  have hdigits : ∀ c ∈ Nat.toDigits 10 n, c.isDigit = true := fun c hc =>
    Nat.isDigit_of_mem_toDigits (by decide) (by decide) hc
  have hlast := List.getLast?_eq_some_getLast (Nat.toDigits_ne_nil (n := n) (b := 10))
  rw [toList_numbered]
  refine ⟨h.append fun c hc => ?_, _, ?_, hdigits _ (List.mem_of_getLast? hlast)⟩
  · rw [isNameChar, Char.isAlphanum, hdigits c hc, Bool.or_true, Bool.true_or]
  · rw [List.getLast?_append, hlast]
    rfl

theorem numbered_injective (word : String) : Function.Injective (numbered word) := by
  intro m n h
  have hlist := congrArg String.toList h
  rw [toList_numbered, toList_numbered, List.append_cancel_left_eq] at hlist
  rw [← Nat.ofDigitChars_ten_toDigits (n := m), hlist, Nat.ofDigitChars_ten_toDigits]

theorem numbered_ne (word : String) (n : Nat) : numbered word n ≠ word := by
  intro h
  have hlist := congrArg String.toList h
  rw [toList_numbered] at hlist
  simp at hlist

/-- In place of a word that is taken stands the word with a counter from two, all smaller ones of
which are taken. -/
theorem firstFree_of_mem {used : List String} {word : String} (h : word ∈ used) :
    ∃ n, 2 ≤ n ∧ firstFree used word = numbered word n ∧
      ∀ m, 2 ≤ m → m < n → numbered word m ∈ used := by
  rw [firstFree, if_pos h, List.map_map, List.find?_map]
  cases hfind : (List.range used.length).find?
      ((fun w => decide (w ∉ used)) ∘ numbered word ∘ (· + 2)) with
  | none =>
    refine ⟨used.length + 2, by omega, rfl, fun m hm hlt => ?_⟩
    have htaken := List.find?_eq_none.mp hfind (m - 2) (List.mem_range.mpr (by omega))
    simpa [Nat.sub_add_cancel hm] using htaken
  | some i =>
    refine ⟨i + 2, by omega, rfl, fun m hm hlt => ?_⟩
    have htaken := (List.find?_range_eq_some.mp hfind).2.2 (m - 2) (by omega)
    simpa [Nat.sub_add_cancel hm] using htaken

/-- The first free name is the word, or the word with a counter from two. -/
theorem firstFree_cases (used : List String) (word : String) :
    (word ∉ used ∧ firstFree used word = word) ∨
      (word ∈ used ∧ ∃ n, 2 ≤ n ∧ firstFree used word = numbered word n) := by
  by_cases h : word ∈ used
  · obtain ⟨n, hn, heq, -⟩ := firstFree_of_mem h
    exact .inr ⟨h, n, hn, heq⟩
  · exact .inl ⟨h, if_neg h⟩

/-- The first free name is free: the counters tried are too many to be all taken beside the word. -/
theorem firstFree_not_mem (used : List String) (word : String) : firstFree used word ∉ used := by
  unfold firstFree
  split
  · next hused =>
    cases hfind : (((List.range used.length).map (· + 2)).map (numbered word)).find? (· ∉ used) with
    | some free => simpa using List.find?_some hfind
    | none =>
      have hall := List.find?_eq_none.mp hfind
      have htaken : word :: ((List.range used.length).map (· + 2)).map (numbered word) ⊆ used := by
        intro w hw
        rcases List.mem_cons.mp hw with rfl | hw
        · exact hused
        · simpa using hall w hw
      have hnodup : (word :: ((List.range used.length).map (· + 2)).map (numbered word)).Nodup := by
        refine List.nodup_cons.mpr ⟨?_, ?_⟩
        · intro hmem
          obtain ⟨n, -, heq⟩ := List.mem_map.mp hmem
          exact numbered_ne word n heq
        · exact ((List.nodup_range).map (fun _ _ h => by simpa using h)).map
            (numbered_injective word)
      have hle := (List.subperm_of_subset hnodup htaken).length_le
      simp only [List.length_cons, List.length_map, List.length_range] at hle
      omega
  · next hfree => exact hfree

end SchemaTypings.Naming
