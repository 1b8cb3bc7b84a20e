/-
  SchemaTypings.Text.Blank

  White space and its removal at the ends of a text.  White space is wider than ASCII's: it has
  the four separator controls, the next-line control and the spaces of all scripts, but neither
  the zero-width space nor the byte order mark.
-/

namespace SchemaTypings.Text

/-- White space. -/
def isBlank (c : Char) : Bool :=
  let n := c.toNat
  (9 ≤ n && n ≤ 13) || (28 ≤ n && n ≤ 32) || n = 0x85 || n = 0xA0 || n = 0x1680 ||
    (0x2000 ≤ n && n ≤ 0x200A) || n = 0x2028 || n = 0x2029 || n = 0x202F || n = 0x205F || n = 0x3000

/-- The list without its longest ending of members that satisfy `p`. -/
def dropEndWhile {α : Type} (p : α → Bool) : List α → List α
  | [] => []
  | a :: rest =>
    match dropEndWhile p rest with
    | [] => if p a then [] else [a]
    | kept => a :: kept

/-- The text without white space at its end. -/
def trimEnd (cs : List Char) : List Char := dropEndWhile isBlank cs

/-- The text without white space at either end. -/
def trim (cs : List Char) : List Char := trimEnd (cs.dropWhile isBlank)

/-- The text without the characters that satisfy `p` at either end. -/
def trimBoth (p : Char → Bool) (cs : List Char) : List Char := dropEndWhile p (cs.dropWhile p)

/-- The text without line feeds at either end. -/
def trimNewlines (cs : List Char) : List Char := trimBoth (· = '\n') cs

@[simp] theorem dropEndWhile_nil {α : Type} (p : α → Bool) : dropEndWhile p [] = [] := rfl

/-- What is dropped at the end satisfies the predicate, and nothing else is lost. -/
theorem dropEndWhile_append_dropped {α : Type} (p : α → Bool) (xs : List α) :
    ∃ dropped, xs = dropEndWhile p xs ++ dropped ∧ ∀ a ∈ dropped, p a := by
  induction xs with
  | nil => exact ⟨[], rfl, by simp⟩
  | cons a rest ih =>
    obtain ⟨dropped, heq, hall⟩ := ih
    unfold dropEndWhile
    split
    · next hnil =>
      rw [hnil, List.nil_append] at heq
      subst heq
      split
      · next hp => exact ⟨a :: rest, rfl, by simpa [hp] using hall⟩
      · exact ⟨rest, rfl, hall⟩
    · exact ⟨dropped, by rw [List.cons_append, ← heq], hall⟩

/-- The last member that is kept fails the predicate. -/
theorem dropEndWhile_getLast? {α : Type} (p : α → Bool) (xs : List α) (a : α)
    (h : (dropEndWhile p xs).getLast? = some a) : p a = false := by
  induction xs with
  | nil => simp at h
  | cons b rest ih =>
    unfold dropEndWhile at h
    split at h
    · split at h
      · simp at h
      · next hp => simp only [List.getLast?_singleton, Option.some.injEq] at h; subst h; simpa using hp
    · next hne =>
      obtain ⟨d, ds, hd⟩ := List.exists_cons_of_ne_nil hne
      rw [hd, List.getLast?_cons_cons, ← hd] at h
      exact ih h

/-- A text whose last member fails the predicate stays. -/
theorem dropEndWhile_eq_self {α : Type} {p : α → Bool} {xs : List α}
    (h : ∀ a, xs.getLast? = some a → p a = false) : dropEndWhile p xs = xs := by
  obtain ⟨dropped, heq, hall⟩ := dropEndWhile_append_dropped p xs
  cases hd : dropped.getLast? with
  | none =>
    rw [List.getLast?_eq_none_iff.mp hd, List.append_nil] at heq
    exact heq.symm
  | some a =>
    have hlast : xs.getLast? = some a := by rw [heq, List.getLast?_append, hd]; rfl
    have hp := hall a (List.mem_of_getLast? hd)
    rw [h a hlast] at hp
    cases hp

/-- A text that satisfies the predicate all through is dropped. -/
theorem dropEndWhile_eq_nil {α : Type} {p : α → Bool} {xs : List α} (h : ∀ a ∈ xs, p a = true) :
    dropEndWhile p xs = [] := by
  induction xs with
  | nil => rfl
  | cons a rest ih =>
    rw [List.forall_mem_cons] at h
    rw [dropEndWhile, ih h.2, h.1]
    rfl

/-- An ending that satisfies the predicate is dropped. -/
theorem dropEndWhile_append {α : Type} {p : α → Bool} (xs : List α) {ys : List α}
    (h : ∀ a ∈ ys, p a = true) : dropEndWhile p (xs ++ ys) = dropEndWhile p xs := by
  induction xs with
  | nil => exact dropEndWhile_eq_nil h
  | cons a rest ih => rw [List.cons_append, dropEndWhile, ih, dropEndWhile]

/-- Nothing is dropped in front of a member that fails the predicate. -/
theorem dropEndWhile_append_cons {α : Type} {p : α → Bool} {a : α} (h : p a = false)
    (xs ys : List α) : dropEndWhile p (xs ++ a :: ys) = xs ++ a :: dropEndWhile p ys := by
  induction xs with
  | nil =>
    rw [List.nil_append, List.nil_append, dropEndWhile]
    split
    · next hnil => simp [h, hnil]
    · rfl
  | cons x rest ih =>
    rw [List.cons_append, dropEndWhile, ih]
    split
    · next hnil => simp at hnil
    · rfl

/-- Removing at the ends a second time removes nothing. -/
theorem trimBoth_trimBoth (p : Char → Bool) (cs : List Char) :
    trimBoth p (trimBoth p cs) = trimBoth p cs := by
  have hstart : (trimBoth p cs).dropWhile p = trimBoth p cs := by
    obtain ⟨dropped, heq, -⟩ := dropEndWhile_append_dropped p (cs.dropWhile p)
    change cs.dropWhile p = trimBoth p cs ++ dropped at heq
    cases hkept : trimBoth p cs with
    | nil => rfl
    | cons c rest =>
      -- The first character that is kept is the first that stopped the removal in front.
      have hne : cs.dropWhile p ≠ [] := by
        rw [heq, hkept]
        exact List.cons_ne_nil _ _
      have hc := List.head_dropWhile_not p hne
      simp only [heq, hkept, List.cons_append, List.head_cons] at hc
      rw [List.dropWhile_cons_of_neg (by simpa using hc)]
  have hend : dropEndWhile p (trimBoth p cs) = trimBoth p cs :=
    dropEndWhile_eq_self fun a ha => dropEndWhile_getLast? p _ a ha
  rw [trimBoth, hstart, hend]

end SchemaTypings.Text
