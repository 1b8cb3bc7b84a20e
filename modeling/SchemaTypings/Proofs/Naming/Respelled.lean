/-
  SchemaTypings.Proofs.Naming.Respelled

  Names spelled a second time.  The words of an ASCII name hold nothing that would part them again,
  so that its snake and its kebab spelling have the words of the name itself.  As every spelling is
  made of the words alone, a spelling of either is that of the name.
-/
import SchemaTypings.Proofs.Naming.Spelled

namespace SchemaTypings

/-! ## Pieces that are not empty -/

namespace Text

variable {sep : Char}

/-- Joined pieces are got back by cutting, and from an empty text none. -/
theorem filter_splitAt_joinWith {pieces : List (List Char)} (hne : ∀ piece ∈ pieces, piece ≠ [])
    (hsep : ∀ piece ∈ pieces, sep ∉ piece) :
    (splitAt sep (joinWith [sep] pieces)).filter (· ≠ []) = pieces := by
  cases pieces with
  | nil => rfl
  | cons first rest =>
    rw [splitAt_joinWith (List.cons_ne_nil _ _) hsep, List.filter_eq_self]
    simpa using hne

theorem map_joinWith (f : Char → Char) (sep : List Char) (pieces : List (List Char)) :
    (joinWith sep pieces).map f = joinWith (sep.map f) (pieces.map (List.map f)) := by
  induction pieces with
  | nil => rfl
  | cons piece rest ih =>
    cases rest with
    | nil => rfl
    | cons next more =>
      rw [joinWith, List.map_append, List.map_append, ih]
      rfl

/-- A text with a separator at one of its ends, or with two in a row, has an empty piece. -/
theorem nil_mem_splitAt {cs : List Char}
    (h : cs.head? = some sep ∨ cs.getLast? = some sep ∨ [sep, sep] <:+: cs) :
    [] ∈ splitAt sep cs := by
  have hfirst : ∀ rest, [] ∈ splitAt sep (sep :: rest) := by
    intro rest
    rw [splitAt_sep_cons]
    exact List.mem_cons_self
  rcases h with hhead | hlast | ⟨front, behind, rfl⟩
  · obtain ⟨rest, rfl⟩ := List.head?_eq_some_iff.mp hhead
    exact hfirst rest
  · obtain ⟨front, rfl⟩ := List.getLast?_eq_some_iff.mp hlast
    rw [splitAt_append_cons]
    exact List.mem_append_right _ List.mem_cons_self
  · rw [List.append_assoc, List.cons_append, splitAt_append_cons]
    exact List.mem_append_right _ (hfirst behind)

end Text

namespace Naming

/-! ## Words of ASCII names -/

/-- A character in the words of an ASCII name: no capital, and nothing that parts words. -/
def isSmallChar (c : Char) : Bool :=
  Text.isAscii c && !c.isUpper && !isSeparator c && c ≠ '_'

theorem isSmallChar_iff {c : Char} : isSmallChar c = true ↔
    Text.isAscii c = true ∧ c.isUpper = false ∧ isSeparator c = false ∧ c ≠ '_' := by
  simp [isSmallChar, and_assoc]

theorem isSmallChar_of_mem_words {name word : List Char}
    (hname : ∀ c ∈ name, Text.isAscii c = true) (hword : word ∈ words name) {c : Char}
    (hc : c ∈ word) : isSmallChar c = true := by
  have hne : c ≠ '_' := fun heq => underscore_not_mem_of_mem_words hword (heq ▸ hc)
  have hmarked : ∀ d ∈ markWords (unifySeparators name),
      Text.isAscii d = true ∧ isSeparator d = false := by
    intro d hd
    rcases mem_markWords hd with rfl | hd
    · decide
    · obtain ⟨e, he, rfl⟩ := List.mem_map.mp hd
      split
      · decide
      · next hsep => exact ⟨hname e he, by simpa using hsep⟩
  have hmem := Text.mem_of_mem_splitAt (List.mem_filter.mp hword).1 hc
  rw [Text.lower, Text.lowerAfter_of_ascii _ _ fun d hd => (hmarked d hd).1] at hmem
  obtain ⟨d, hd, rfl⟩ := List.mem_map.mp hmem
  obtain ⟨hascii, hsep⟩ := hmarked d hd
  have hlook := forall_ascii
    (p := fun d => isSeparator d || d.toLower == '_' || isSmallChar d.toLower) (by decide) hascii
  simpa [hsep, hne] using hlook

/-- Words begin at capitals only. -/
theorem markWords_eq_self {cs : List Char} (h : ∀ c ∈ cs, c.isUpper = false) :
    markWords cs = cs := by
  induction cs using markWords.induct with
  | case1 x y rest hbegins _ =>
    rw [beginsWord, h y (by simp)] at hbegins
    cases hbegins
  | case2 x y rest hbegins ih =>
    rw [markWords, if_neg hbegins, ih fun c hc => h c (List.mem_cons_of_mem x hc)]
  | case3 cs hshort =>
    rw [markWords.eq_def]
    split
    · exact absurd rfl (hshort _ _ _)
    · rfl

/-- The words of a text that small words are joined to by underscores, or by a separator. -/
theorem words_joinWith {sep : Char} {pieces : List (List Char)}
    (hsep : sep = '_' ∨ isSeparator sep = true) (hne : ∀ piece ∈ pieces, piece ≠ [])
    (hsmall : ∀ piece ∈ pieces, ∀ c ∈ piece, isSmallChar c = true) :
    words (Text.joinWith [sep] pieces) = pieces := by
  have hunify : unifySeparators (Text.joinWith [sep] pieces) = Text.joinWith ['_'] pieces := by
    have hmark : (if isSeparator sep then '_' else sep) = '_' := by
      rcases hsep with rfl | hsep
      · rfl
      · rw [if_pos hsep]
    have hself : ∀ piece ∈ pieces,
        piece.map (fun c => if isSeparator c then '_' else c) = piece := by
      intro piece hpiece
      have hid : ∀ c ∈ piece, (if isSeparator c then '_' else c) = c := by
        intro c hc
        rw [(isSmallChar_iff.mp (hsmall piece hpiece c hc)).2.2.1]
        rfl
      rw [List.map_congr_left hid, List.map_id']
    rw [unifySeparators, Text.map_joinWith, List.map_singleton, hmark, List.map_congr_left hself,
      List.map_id']
  -- What stands in the joined text is in lower case already.
  have hlow : ∀ c ∈ Text.joinWith ['_'] pieces,
      Text.isAscii c = true ∧ c.isUpper = false ∧ c.toLower = c := by
    intro c hc
    rcases Text.mem_of_mem_joinWith hc with hc | ⟨piece, hpiece, hc⟩
    · rw [List.mem_singleton.mp hc]
      decide
    · obtain ⟨hascii, hupper, -⟩ := isSmallChar_iff.mp (hsmall piece hpiece c hc)
      have hlook := forall_ascii (p := fun c => c.isUpper || c.toLower == c) (by decide) hascii
      exact ⟨hascii, hupper, by simpa [hupper] using hlook⟩
  rw [words, hunify, markWords_eq_self fun c hc => (hlow c hc).2.1, Text.lower,
    Text.lowerAfter_of_ascii _ _ fun c hc => (hlow c hc).1,
    List.map_congr_left fun c hc => (hlow c hc).2.2, List.map_id']
  refine Text.filter_splitAt_joinWith hne fun piece hpiece hmem => ?_
  exact (isSmallChar_iff.mp (hsmall piece hpiece '_' hmem)).2.2.2 rfl

theorem words_snake {name : List Char} (hname : ∀ c ∈ name, Text.isAscii c = true) :
    words (snake name) = words name :=
  words_joinWith (.inl rfl) (fun _ => ne_nil_of_mem_words)
    fun _ hword _ => isSmallChar_of_mem_words hname hword

theorem words_kebab {name : List Char} (hname : ∀ c ∈ name, Text.isAscii c = true) :
    words (kebab name) = words name :=
  words_joinWith (.inr rfl) (fun _ => ne_nil_of_mem_words)
    fun _ hword _ => isSmallChar_of_mem_words hname hword

/-! ## Spellings of the same words -/

theorem snake_eq_snake_iff {a b : List Char} : snake a = snake b ↔ words a = words b := by
  refine ⟨fun h => ?_, fun h => by rw [snake, snake, h]⟩
  have hcut : ∀ name, (Text.splitAt '_' (snake name)).filter (· ≠ []) = words name := fun name =>
    Text.filter_splitAt_joinWith (fun _ => ne_nil_of_mem_words)
      fun _ => underscore_not_mem_of_mem_words
  rw [← hcut a, h, hcut b]

theorem kebab_eq_kebab_iff {a b : List Char} : kebab a = kebab b ↔ words a = words b := by
  refine ⟨fun h => ?_, fun h => by rw [kebab, kebab, h]⟩
  have hcut : ∀ name, (Text.splitAt '-' (kebab name)).filter (· ≠ []) = words name := by
    refine fun name => Text.filter_splitAt_joinWith (fun _ => ne_nil_of_mem_words) ?_
    intro word hword hmem
    have hsep := (mem_of_mem_words hword hmem (by decide)).2
    cases hsep
  rw [← hcut a, h, hcut b]

theorem pascal_congr {a b : List Char} (h : words a = words b) : pascal a = pascal b := by
  rw [pascal, pascal, h]

/-- Camel case keeps a name without words; else it is made of the words as well. -/
theorem camel_congr {a b : List Char} (h : words a = words b) (hne : words b ≠ []) :
    camel a = camel b := by
  rw [camel, camel, h]
  split
  · next hnil => exact absurd hnil hne
  · rfl

/-! ## Snake case -/

/-- A text in snake case: no capitals, and underscores one by one between other characters. -/
structure IsSnakeCase (text : List Char) : Prop where
  not_upper : ∀ c ∈ text, c.isUpper = false
  not_separator : ∀ c ∈ text, isSeparator c = false
  not_doubled : ¬['_', '_'] <:+: text
  not_in_front : text.head? ≠ some '_'
  not_at_end : text.getLast? ≠ some '_'

theorem isSnakeCase_snake {name : List Char} (hname : ∀ c ∈ name, Text.isAscii c = true) :
    IsSnakeCase (snake name) := by
  have hchars : ∀ c ∈ snake name, c.isUpper = false ∧ isSeparator c = false := by
    intro c hc
    rcases Text.mem_of_mem_joinWith hc with hc | ⟨word, hword, hc⟩
    · rw [List.mem_singleton.mp hc]
      decide
    · obtain ⟨-, hupper, hsep, -⟩ := isSmallChar_iff.mp (isSmallChar_of_mem_words hname hword hc)
      exact ⟨hupper, hsep⟩
  have hends : ¬((snake name).head? = some '_' ∨ (snake name).getLast? = some '_' ∨
      ['_', '_'] <:+: snake name) := by
    by_cases hwords : words name = []
    · rw [snake, hwords]
      decide
    · intro h
      -- A misplaced underscore would leave an empty word.
      have hnil := Text.nil_mem_splitAt h
      rw [snake, Text.splitAt_joinWith hwords fun _ => underscore_not_mem_of_mem_words] at hnil
      exact ne_nil_of_mem_words hnil rfl
  simp only [not_or] at hends
  exact ⟨fun c hc => (hchars c hc).1, fun c hc => (hchars c hc).2, hends.2.2, hends.1, hends.2.1⟩

/-- The snake spelling is what the spellings of an ASCII name have in common: it has no capitals and
its underscores stand between words, spelling it or the kebab spelling again gives what the name
gives, and names have one kebab spelling exactly if they have one snake spelling.  A name without
words is its own camel spelling. -/
theorem spellings_share_snake {name : String} (hname : ∀ c ∈ name.toList, Text.isAscii c = true) :
    IsSnakeCase (snakeCase name).toList ∧
    snakeCase (snakeCase name) = snakeCase name ∧
    snakeCase (kebabCase name) = snakeCase name ∧
    pascalCase (snakeCase name) = pascalCase name ∧
    pascalCase (kebabCase name) = pascalCase name ∧
    (snakeCase name ≠ "" → camelCase (snakeCase name) = camelCase name ∧
      camelCase (kebabCase name) = camelCase name) ∧
    ∀ other : String, kebabCase name = kebabCase other ↔ snakeCase name = snakeCase other := by
  have hsnake : words (snakeCase name).toList = words name.toList := by
    rw [snakeCase, String.toList_ofList, words_snake hname]
  have hkebab : words (kebabCase name).toList = words name.toList := by
    rw [kebabCase, String.toList_ofList, words_kebab hname]
  refine ⟨?_, congrArg String.ofList (snake_eq_snake_iff.mpr hsnake),
    congrArg String.ofList (snake_eq_snake_iff.mpr hkebab),
    congrArg String.ofList (pascal_congr hsnake), congrArg String.ofList (pascal_congr hkebab),
    fun hne => ?_, fun other => ?_⟩
  · rw [snakeCase, String.toList_ofList]
    exact isSnakeCase_snake hname
  · have hwords : words name.toList ≠ [] := by
      intro hnil
      rw [snakeCase, snake, hnil] at hne
      exact hne rfl
    exact ⟨congrArg String.ofList (camel_congr hsnake hwords),
      congrArg String.ofList (camel_congr hkebab hwords)⟩
  · rw [kebabCase, kebabCase, snakeCase, snakeCase, String.ofList_inj, String.ofList_inj,
      kebab_eq_kebab_iff, snake_eq_snake_iff]

/-- A name with a row of capitals, a digit and separators of several kinds in a row. -/
theorem spellings_share_snake_acronym :
    (∀ c ∈ "XMLHttp2Request. -v_X".toList, Text.isAscii c = true) ∧
      snakeCase "XMLHttp2Request. -v_X" = "xml_http2_request_v_x" ∧
      snakeCase (kebabCase "XMLHttp2Request. -v_X") = "xml_http2_request_v_x" ∧
      camelCase (kebabCase "XMLHttp2Request. -v_X") = camelCase "XMLHttp2Request. -v_X" ∧
      kebabCase "XMLHttp2Request. -v_X" ≠ kebabCase "XML2HttpRequest" := by
  have hname : ∀ c ∈ "XMLHttp2Request. -v_X".toList, Text.isAscii c = true :=
    List.all_eq_true.mp (by decide +kernel)
  have hsnake : snakeCase "XMLHttp2Request. -v_X" = "xml_http2_request_v_x" := by
    decide +kernel
  obtain ⟨-, -, hkebab, -, -, hcamel, hdistinct⟩ := spellings_share_snake hname
  refine ⟨hname, hsnake, hkebab.trans hsnake, (hcamel ?_).2, ?_⟩
  · rw [hsnake]
    decide
  · rw [Ne, hdistinct, hsnake]
    decide +kernel

end Naming
end SchemaTypings
