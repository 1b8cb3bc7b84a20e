/-
  SchemaTypings.Proofs.Section.SecretNames

  Which lists of secrets are accepted, and with what the others are refused.  The form of a name is
  given by a grammar of its own; the check lets through that and, besides, a name of this form with
  a line feed behind it.
-/
import SchemaTypings.Section.Secrets
import SchemaTypings.Proofs.Naming.KeyReader
import SchemaTypings.Proofs.Text.Pieces
import Mathlib.Data.List.Nodup

namespace SchemaTypings.Secrets

/-! ## The grammar of names -/

/-- A capital letter of ASCII. -/
def IsCapital (c : Char) : Prop := 'A' ≤ c ∧ c ≤ 'Z'

/-- A character of a group. -/
def IsGroupChar (c : Char) : Prop := IsCapital c ∨ ('0' ≤ c ∧ c ≤ '9')

/-- Groups of capitals and digits with single underscores between them, beginning with a capital. -/
structure IsUpperName (name : List Char) : Prop where
  groups : ∃ groups, groups ≠ [] ∧
    (∀ group ∈ groups, group ≠ [] ∧ ∀ c ∈ group, IsGroupChar c) ∧ name = Text.joinWith ['_'] groups
  first : ∃ c, name.head? = some c ∧ IsCapital c

/-- A name that a secret should have. -/
def IsSecretName (name : String) : Prop := IsUpperName name.toList

/-- A name that is let through. -/
def IsAccepted (name : String) : Prop :=
  IsSecretName name ∨ ∃ word, IsSecretName word ∧ name = word ++ "\n"

theorem isUpper_iff (c : Char) : c.isUpper = true ↔ IsCapital c := by
  unfold Char.isUpper IsCapital
  simp only [decide_eq_true_eq, Char.le_def, ge_iff_le]

theorem isScreamingChar_iff (c : Char) : Naming.isScreamingChar c = true ↔ IsGroupChar c := by
  simp only [Naming.isScreamingChar, IsGroupChar, Bool.or_eq_true, isUpper_iff, Char.isDigit,
    Bool.and_eq_true, decide_eq_true_eq, Char.le_def, ge_iff_le]

theorem not_isGroupChar_underscore : ¬IsGroupChar '_' := by
  unfold IsGroupChar IsCapital
  decide

theorem not_isGroupChar_feed : ¬IsGroupChar '\n' := by
  unfold IsGroupChar IsCapital
  decide

theorem IsUpperName.feed_not_mem {name : List Char} (h : IsUpperName name) : '\n' ∉ name := by
  obtain ⟨groups, -, hgroups, rfl⟩ := h.groups
  intro hmem
  rcases Text.mem_of_mem_joinWith hmem with hmem | ⟨group, hgroup, hmem⟩
  · exact absurd (List.mem_singleton.mp hmem) (by decide)
  · exact not_isGroupChar_feed ((hgroups group hgroup).2 _ hmem)

theorem head?_joinWith {sep group : List Char} (h : group ≠ []) (rest : List (List Char)) :
    (Text.joinWith sep (group :: rest)).head? = group.head? := by
  obtain ⟨c, cs, rfl⟩ := List.exists_cons_of_ne_nil h
  cases rest <;> rfl

/-- The check is the grammar, but for one final line feed that it does not see. -/
theorem isScreaming_iff (name : List Char) :
    Naming.isScreaming name = true ↔ IsUpperName (Naming.dropFinalNewline name) := by
  unfold Naming.isScreaming
  generalize Naming.dropFinalNewline name = word
  have hgroup : ∀ group : List Char,
      (!group.isEmpty && group.all Naming.isScreamingChar) = true ↔
        group ≠ [] ∧ ∀ c ∈ group, IsGroupChar c := by
    intro group
    simp only [Bool.and_eq_true, Bool.not_eq_true', List.isEmpty_eq_false_iff, List.all_eq_true,
      isScreamingChar_iff, ne_eq]
  simp only [Bool.and_eq_true, List.all_eq_true, hgroup]
  -- the groups between the underscores are the pieces that the check splits off
  constructor
  · rintro ⟨hgroups, hfirst⟩
    have hjoin := Text.joinWith_splitAt '_' word
    refine ⟨⟨_, Text.splitAt_ne_nil '_' word, hgroups, hjoin.symm⟩, ?_⟩
    obtain ⟨group, rest, hsplit⟩ := List.exists_cons_of_ne_nil (Text.splitAt_ne_nil '_' word)
    rw [hsplit] at hgroups hfirst hjoin
    obtain ⟨c, cs, rfl⟩ := List.exists_cons_of_ne_nil (hgroups group List.mem_cons_self).1
    rw [← hjoin, head?_joinWith (List.cons_ne_nil c cs)]
    exact ⟨c, rfl, (isUpper_iff c).mp hfirst⟩
  · rintro ⟨⟨groups, hne, hgroups, rfl⟩, c, hword, hc⟩
    have hfree : ∀ group ∈ groups, '_' ∉ group := fun group hmem hunderscore =>
      not_isGroupChar_underscore ((hgroups group hmem).2 _ hunderscore)
    rw [Text.splitAt_joinWith hne hfree]
    obtain ⟨group, rest, rfl⟩ := List.exists_cons_of_ne_nil hne
    rw [head?_joinWith (hgroups group List.mem_cons_self).1] at hword
    refine ⟨hgroups, ?_⟩
    rw [List.head?_cons, Option.bind_some, hword]
    exact (isUpper_iff c).mpr hc

theorem isScreamingSnakeCase_iff (name : String) :
    Naming.isScreamingSnakeCase name = true ↔ IsAccepted name := by
  rw [Naming.isScreamingSnakeCase, isScreaming_iff,
    Naming.dropFinalNewline_iff fun _ => IsUpperName.feed_not_mem]
  refine or_congr_right ⟨?_, ?_⟩
  · rintro ⟨word, hword, heq⟩
    refine ⟨String.ofList word, by rwa [IsSecretName, String.toList_ofList], ?_⟩
    rw [← String.toList_inj, heq, String.toList_append, String.toList_ofList]
    rfl
  · rintro ⟨word, hword, rfl⟩
    exact ⟨word.toList, hword, String.toList_append⟩

/-! ## What becomes of a list -/

/-- The name is the first of the list that has a property. -/
def IsFirst (p : String → Prop) (secrets : List String) (name : String) : Prop :=
  ∃ front rest, secrets = front ++ name :: rest ∧ p name ∧ ∀ other ∈ front, ¬p other

/-- What the outcome for a list says when the good names are given: it is the variables of good and
distinct names, or names the first that is not good, or else the first that is repeated and how
often it occurs. -/
def Settles (good : String → Prop) (namePrefix : String) (secrets : List String) :
    Except GenerationError (Entries String) → Prop
  | .ok entries =>
    (∀ name ∈ secrets, good name) ∧ secrets.Nodup ∧ entries.map Prod.fst = secrets ∧
      entries.map Prod.snd = secrets.map (namePrefix ++ ·) ∧ (entries.map Prod.snd).Nodup
  | .error (.invalidSecret name) => IsFirst (fun name => ¬good name) secrets name
  | .error (.duplicateSecret name times) =>
    (∀ name ∈ secrets, good name) ∧ IsFirst (fun name => 1 < secrets.count name) secrets name ∧
      times = secrets.count name
  | .error _ => False

theorem find?_eq_some_iff_isFirst {test : String → Bool} {p : String → Prop}
    (hp : ∀ name, test name = true ↔ p name) {secrets : List String} {name : String} :
    secrets.find? test = some name ↔ IsFirst p secrets name := by
  rw [List.find?_eq_some_iff_append]
  simp only [IsFirst, hp, Bool.not_eq_true', ← Bool.not_eq_true]
  constructor
  · rintro ⟨hname, front, rest, rfl, hfront⟩
    exact ⟨front, rest, rfl, hname, hfront⟩
  · rintro ⟨front, rest, rfl, hname, hfront⟩
    exact ⟨hname, front, rest, rfl, hfront⟩

theorem IsFirst.mem {p : String → Prop} {secrets : List String} {name : String}
    (h : IsFirst p secrets name) : name ∈ secrets := by
  obtain ⟨front, rest, rfl, -, -⟩ := h
  simp

theorem IsFirst.holds {p : String → Prop} {secrets : List String} {name : String}
    (h : IsFirst p secrets name) : p name := h.choose_spec.choose_spec.2.1

/-- The first name with a property is the first with a stronger one that it has. -/
theorem IsFirst.strengthen {p q : String → Prop} (hpq : ∀ name, q name → p name)
    {secrets : List String} {name : String} (h : IsFirst p secrets name) (hname : q name) :
    IsFirst q secrets name := by
  obtain ⟨front, rest, hsecrets, -, hfront⟩ := h
  exact ⟨front, rest, hsecrets, hname, fun other hmem hother =>
    hfront other hmem (hpq other hother)⟩

theorem IsFirst.unique {p : String → Prop} {secrets : List String} {name other : String}
    (h : IsFirst p secrets name) (hother : IsFirst p secrets other) : name = other := by
  classical
  have hfind := @find?_eq_some_iff_isFirst (fun name => decide (p name)) p
    (fun _ => decide_eq_true_iff) secrets
  exact Option.some.inj ((hfind.mpr h).symm.trans (hfind.mpr hother))

/-- A list has a first name with a property if it has one at all. -/
theorem exists_isFirst {p : String → Prop} {secrets : List String} {name : String}
    (hmem : name ∈ secrets) (hname : p name) : ∃ first, IsFirst p secrets first := by
  classical
  have hsome : (secrets.find? fun name => decide (p name)).isSome :=
    List.find?_isSome.mpr ⟨name, hmem, decide_eq_true hname⟩
  obtain ⟨first, hfirst⟩ := Option.isSome_iff_exists.mp hsome
  exact ⟨first, (find?_eq_some_iff_isFirst fun _ => decide_eq_true_iff).mp hfirst⟩

theorem firstMalformed?_eq_some_iff {secrets : List String} {name : String} :
    firstMalformed? secrets = some name ↔ IsFirst (fun name => ¬IsAccepted name) secrets name :=
  find?_eq_some_iff_isFirst fun name => by
    rw [← isScreamingSnakeCase_iff, Bool.not_eq_true', Bool.not_eq_true]

theorem firstRepeated?_eq_some_iff {secrets : List String} {name : String} :
    firstRepeated? secrets = some name ↔
      IsFirst (fun name => 1 < secrets.count name) secrets name :=
  find?_eq_some_iff_isFirst fun _ => decide_eq_true_iff

theorem firstMalformed?_eq_none_iff {secrets : List String} :
    firstMalformed? secrets = none ↔ ∀ name ∈ secrets, IsAccepted name := by
  simp only [firstMalformed?, List.find?_eq_none, Bool.not_eq_true', Bool.not_eq_false,
    isScreamingSnakeCase_iff]

theorem firstRepeated?_eq_none_iff {secrets : List String} :
    firstRepeated? secrets = none ↔ secrets.Nodup := by
  rw [List.nodup_iff_count_le_one]
  simp only [firstRepeated?, List.find?_eq_none, decide_eq_true_eq, Nat.not_lt]
  refine ⟨fun h name => ?_, fun h name _ => h name⟩
  by_cases hmem : name ∈ secrets
  · exact h name hmem
  · rw [List.count_eq_zero_of_not_mem hmem]
    exact Nat.zero_le 1

theorem variableName_injective (namePrefix : String) :
    Function.Injective (variableName namePrefix) := by
  intro name other h
  rw [variableName, variableName, ← String.toList_inj, String.toList_append,
    String.toList_append] at h
  exact String.toList_inj.mp (List.append_cancel_left h)

/-- Every outcome is settled by the names that are let through. -/
theorem settles_isAccepted (namePrefix : String) (secrets : List String) :
    Settles IsAccepted namePrefix secrets (environment namePrefix secrets) := by
  unfold environment validate checkForms
  cases hforms : firstMalformed? secrets with
  | some name => exact firstMalformed?_eq_some_iff.mp hforms
  | none =>
    have hgood := firstMalformed?_eq_none_iff.mp hforms
    rw [checkDistinct.eq_def]
    cases hdistinct : firstRepeated? secrets with
    | some name => exact ⟨hgood, firstRepeated?_eq_some_iff.mp hdistinct, rfl⟩
    | none =>
      have hnodup := firstRepeated?_eq_none_iff.mp hdistinct
      have hvalues : (secrets.map fun secret => (secret, variableName namePrefix secret)).map
          Prod.snd = secrets.map (namePrefix ++ ·) := by
        rw [List.map_map]
        rfl
      refine ⟨hgood, hnodup, ?_, hvalues, ?_⟩
      · rw [List.map_map]
        exact List.map_id secrets
      · rw [hvalues]
        exact hnodup.map (variableName_injective namePrefix)

/-- A list is accepted exactly if its names are let through and distinct. -/
theorem exists_environment_iff (namePrefix : String) (secrets : List String) :
    (∃ entries, environment namePrefix secrets = .ok entries) ↔
      (∀ name ∈ secrets, IsAccepted name) ∧ secrets.Nodup := by
  rw [← firstMalformed?_eq_none_iff, ← firstRepeated?_eq_none_iff]
  unfold environment validate checkForms
  constructor
  · rintro ⟨entries, h⟩
    cases hforms : firstMalformed? secrets with
    | some name => rw [hforms] at h; cases h
    | none =>
      rw [hforms, checkDistinct.eq_def] at h
      cases hdistinct : firstRepeated? secrets with
      | some name => rw [hdistinct] at h; cases h
      | none => exact ⟨rfl, rfl⟩
  · rintro ⟨hforms, hdistinct⟩
    rw [hforms, checkDistinct.eq_def, hdistinct]
    exact ⟨_, rfl⟩

/-- The names of the grammar settle a list as it is settled, unless the first name outside the
grammar is one of the grammar with a line feed behind it. -/
theorem settles_isSecretName_iff (namePrefix : String) (secrets : List String) :
    Settles IsSecretName namePrefix secrets (environment namePrefix secrets) ↔
      ¬∃ word, IsSecretName word ∧
        IsFirst (fun name => ¬IsSecretName name) secrets (word ++ "\n") := by
  have haccepted := settles_isAccepted namePrefix secrets
  constructor
  · rintro hsettles ⟨word, hword, hfirst⟩
    revert haccepted hsettles
    cases environment namePrefix secrets with
    | ok entries => exact fun _ hsettles => hfirst.holds (hsettles.1 _ hfirst.mem)
    | error e =>
      cases e with
      | invalidSecret name =>
        intro (haccepted : IsFirst (fun name => ¬IsAccepted name) secrets name) hsettles
        obtain rfl := hfirst.unique hsettles
        exact haccepted.holds (.inr ⟨word, hword, rfl⟩)
      | duplicateSecret name times =>
        exact fun _ hsettles => hfirst.holds (hsettles.1 _ hfirst.mem)
      | _ => exact fun _ hsettles => hsettles
  · intro hplain
    -- The first name outside the grammar is not let through either.
    have hrefused : ∀ first, IsFirst (fun name => ¬IsSecretName name) secrets first →
        ¬IsAccepted first := by
      rintro first hfirst (hsecret | ⟨word, hword, rfl⟩)
      · exact hfirst.holds hsecret
      · exact hplain ⟨word, hword, hfirst⟩
    have hexists : ∀ name ∈ secrets, ¬IsSecretName name →
        ∃ first, IsFirst (fun name => ¬IsSecretName name) secrets first :=
      fun name hmem hnot => exists_isFirst (p := fun name => ¬IsSecretName name) hmem hnot
    have hgood : (∀ name ∈ secrets, IsAccepted name) → ∀ name ∈ secrets, IsSecretName name := by
      intro haccepted name hmem
      by_contra hnot
      obtain ⟨first, hfirst⟩ := hexists name hmem hnot
      exact hrefused first hfirst (haccepted first hfirst.mem)
    revert haccepted
    cases environment namePrefix secrets with
    | ok entries => exact fun haccepted => ⟨hgood haccepted.1, haccepted.2⟩
    | error e =>
      cases e with
      | invalidSecret name =>
        intro (haccepted : IsFirst (fun name => ¬IsAccepted name) secrets name)
        obtain ⟨first, hfirst⟩ := hexists name haccepted.mem fun h => haccepted.holds (.inl h)
        have hsame : first = name :=
          (hfirst.strengthen (fun _ hnot h => hnot (.inl h)) (hrefused first hfirst)).unique haccepted
        exact hsame ▸ hfirst
      | duplicateSecret name times =>
        exact fun haccepted => ⟨hgood haccepted.1, haccepted.2⟩
      | _ => exact fun haccepted => haccepted

/-- The outcome for every list and prefix: the variables if all names are let through and distinct,
else the first name that is not let through, else the first that is repeated with its number.  The
grammar alone says the same unless the first name outside it is one of its own with a line feed
behind. -/
theorem environment_settles (namePrefix : String) (secrets : List String) :
    Settles IsAccepted namePrefix secrets (environment namePrefix secrets) ∧
    ((∃ entries, environment namePrefix secrets = .ok entries) ↔
      (∀ name ∈ secrets, IsAccepted name) ∧ secrets.Nodup) ∧
    (Settles IsSecretName namePrefix secrets (environment namePrefix secrets) ↔
      ¬∃ word, IsSecretName word ∧
        IsFirst (fun name => ¬IsSecretName name) secrets (word ++ "\n")) :=
  ⟨settles_isAccepted namePrefix secrets, exists_environment_iff namePrefix secrets,
    settles_isSecretName_iff namePrefix secrets⟩

/-- A name with a line feed behind it gets a variable. -/
theorem not_settles_environment_feed :
    ¬Settles IsSecretName "SECRET_" ["A\n"] (environment "SECRET_" ["A\n"]) := by
  have hok : environment "SECRET_" ["A\n"] = .ok [("A\n", "SECRET_A\n")] := by rfl
  rw [hok]
  rintro ⟨hgood, -⟩
  exact (hgood "A\n" (by decide)).feed_not_mem (by decide)

end SchemaTypings.Secrets
