/-
  SchemaTypings.Proofs.Typescript.Allocation

  Whole histories of calls on a sanitizer of declared names.  Every name that is returned is an
  identifier and no word of the vocabulary, and what is claimed between two resets is all distinct.

  What has been claimed since the last reset is read off the answers that the calls gave.  That the
  names in use are these and no others is the invariant from which the rest follows.
-/
import SchemaTypings.Proofs.Typescript.TypeName

namespace SchemaTypings.Naming

/-- A name as it is handed out: the word if it is not taken, else the word with the least counter
from two with which it is not. -/
def IsLeastFree (taken : List String) (word name : String) : Prop :=
  (word ∉ taken ∧ name = word) ∨
    (word ∈ taken ∧ ∃ n, 2 ≤ n ∧ name = numbered word n ∧ name ∉ taken ∧
      ∀ m, 2 ≤ m → m < n → numbered word m ∈ taken)

theorem isLeastFree_firstFree (used : List String) (word : String) :
    IsLeastFree used word (firstFree used word) := by
  by_cases hused : word ∈ used
  · obtain ⟨n, hn, heq, hleast⟩ := firstFree_of_mem hused
    exact .inr ⟨hused, n, hn, heq, firstFree_not_mem used word, hleast⟩
  · exact .inl ⟨hused, if_neg hused⟩

namespace Sanitizer

/-! ## Histories -/

/-- A call of a sanitizer. -/
inductive Call where
  | sanitize (name : String) (spelling : Spelling)
  | claim (name : String) (spelling : Spelling)
  | reset
deriving DecidableEq

/-- The spelling that a call asks for. -/
def Call.spelling? : Call → Option Spelling
  | .sanitize _ spelling => some spelling
  | .claim _ spelling => some spelling
  | .reset => none

/-- What a call returns, if anything, and the sanitizer after it. -/
def perform (s : Sanitizer) : Call → Option String × Sanitizer
  | .sanitize name spelling => (some (Naming.sanitize s.vocabulary name spelling), s)
  | .claim name spelling => (some (s.claim name spelling).1, (s.claim name spelling).2)
  | .reset => (none, s.reset)

/-- Calls made one after the other, each with what it returns. -/
def transcript (s : Sanitizer) : List Call → List (Call × Option String)
  | [] => []
  | call :: rest => (call, (s.perform call).1) :: (s.perform call).2.transcript rest

/-- The sanitizer after calls. -/
def afterAll (s : Sanitizer) (calls : List Call) : Sanitizer :=
  calls.foldl (fun s call => (s.perform call).2) s

/-- The names claimed since the last reset, once a call has been answered. -/
def noteAnswer (claimed : List String) : Call × Option String → List String
  | (.sanitize _ _, _) => claimed
  | (.claim _ _, answer?) => claimed ++ answer?.toList
  | (.reset, _) => []

/-- The names claimed since the last reset, in order. -/
def claimedSinceReset (answers : List (Call × Option String)) : List String :=
  answers.foldl noteAnswer []

/-! ## Steps -/

theorem perform_vocabulary (s : Sanitizer) (call : Call) :
    (s.perform call).2.vocabulary = s.vocabulary := by
  cases call <;> rfl

/-- A call changes the names in use as its answer tells. -/
theorem perform_used (s : Sanitizer) (call : Call) :
    (s.perform call).2.used.reverse = noteAnswer s.used.reverse (call, (s.perform call).1) := by
  cases call with
  | sanitize name spelling => rfl
  | claim name spelling => exact List.reverse_cons
  | reset => rfl

theorem nodup_perform {s : Sanitizer} (h : s.used.Nodup) (call : Call) :
    (s.perform call).2.used.Nodup := by
  cases call with
  | sanitize name spelling => exact h
  | claim name spelling => exact List.nodup_cons.mpr ⟨firstFree_not_mem _ _, h⟩
  | reset => exact List.nodup_nil

/-! ## Runs -/

theorem afterAll_vocabulary (s : Sanitizer) (calls : List Call) :
    (s.afterAll calls).vocabulary = s.vocabulary := by
  induction calls generalizing s with
  | nil => rfl
  | cons call rest ih => exact (ih (s.perform call).2).trans (s.perform_vocabulary call)

/-- The names in use are those that the answers tell of. -/
theorem afterAll_used (s : Sanitizer) (calls : List Call) :
    (s.afterAll calls).used.reverse = (s.transcript calls).foldl noteAnswer s.used.reverse := by
  induction calls generalizing s with
  | nil => rfl
  | cons call rest ih =>
    rw [transcript, List.foldl_cons, ← perform_used]
    exact ih (s.perform call).2

theorem nodup_afterAll {s : Sanitizer} (h : s.used.Nodup) (calls : List Call) :
    (s.afterAll calls).used.Nodup := by
  induction calls generalizing s with
  | nil => exact h
  | cons call rest ih => exact ih (nodup_perform h call)

theorem length_transcript (s : Sanitizer) (calls : List Call) :
    (s.transcript calls).length = calls.length := by
  induction calls generalizing s with
  | nil => rfl
  | cons call rest ih => rw [transcript, List.length_cons, ih, List.length_cons]

theorem transcript_append (s : Sanitizer) (calls later : List Call) :
    s.transcript (calls ++ later) = s.transcript calls ++ (s.afterAll calls).transcript later := by
  induction calls generalizing s with
  | nil => rfl
  | cons call rest ih =>
    rw [List.cons_append, transcript, ih]
    rfl

/-- An answer in a transcript is one that the sanitizer gives at some time. -/
theorem exists_of_mem_transcript {s : Sanitizer} {calls : List Call} {call : Call}
    {answer? : Option String} (h : (call, answer?) ∈ s.transcript calls) :
    ∃ before, answer? = ((s.afterAll before).perform call).1 := by
  induction calls generalizing s with
  | nil => cases h
  | cons first rest ih =>
    rcases List.mem_cons.mp h with heq | h
    · cases heq
      exact ⟨[], rfl⟩
    · obtain ⟨before, hanswer⟩ := ih h
      exact ⟨first :: before, hanswer⟩

/-- A claim is answered with the least free name beside those claimed since the last reset. -/
theorem getElem?_transcript_claim {s : Sanitizer} (hs : s.used = []) (before after : List Call)
    (name : String) (spelling : Spelling) :
    ∃ answer, (s.transcript (before ++ .claim name spelling :: after))[before.length]? =
        some (.claim name spelling, some answer) ∧
      IsLeastFree (claimedSinceReset (s.transcript before))
        (Naming.sanitize s.vocabulary name spelling) answer := by
  refine ⟨((s.afterAll before).claim name spelling).1, ?_, ?_⟩
  · rw [transcript_append, List.getElem?_append_right (s.length_transcript before).le,
      length_transcript, Nat.sub_self]
    rfl
  · have hused := s.afterAll_used before
    have hfree := isLeastFree_firstFree (s.afterAll before).used
      (Naming.sanitize s.vocabulary name spelling)
    rw [hs, List.reverse_nil] at hused
    rw [claimedSinceReset, ← hused, claim, afterAll_vocabulary]
    simpa only [IsLeastFree, List.mem_reverse] using hfree

end Sanitizer

end SchemaTypings.Naming

namespace SchemaTypings.Typescript

open Naming (IsName IsLeastFree Sanitizer Spelling)
open Naming.Sanitizer (Call claimedSinceReset)

/-- What a call that asks for a spelling with underscores or capitals returns is safe. -/
theorem isSafe_perform {names : Sanitizer} (h : names.vocabulary = vocabulary) {call : Call}
    (hcall : call.spelling? ≠ some .kebab) :
    (call = .reset ∧ (names.perform call).1 = none) ∨
      ∃ name, (names.perform call).1 = some name ∧ IsSafe name := by
  cases call with
  | sanitize name spelling =>
    refine .inr ⟨_, rfl, ?_⟩
    rw [h]
    exact isSafe_sanitize (fun heq => hcall (congrArg some heq)) name
  | claim name spelling =>
    exact .inr ⟨_, rfl, isSafe_claim h (fun heq => hcall (congrArg some heq)) name⟩
  | reset => exact .inl ⟨rfl, rfl⟩

theorem IsSafe.not_mem_words {name : String} (h : IsSafe name) :
    Text.lowerString name ∉ reservedWords ∧ Text.lowerString name ∉ builtinTypes := by
  have hnot := h.not_has
  rw [Naming.Vocabulary.has, Bool.or_eq_false_iff] at hnot
  have hfree : ∀ words : List String,
      words.contains (String.ofList (Text.lower name.toList)) = false →
        Text.lowerString name ∉ words := by
    intro words hwords hmem
    rw [← List.contains_iff_mem, Text.lowerString, hwords] at hmem
    cases hmem
  exact ⟨hfree _ hnot.1, hfree _ hnot.2⟩

/-- Names are safe and claimed once.  Whatever is called on a sanitizer, each call but a reset
returns a name, which in all spellings but the hyphenated one is an identifier and no reserved word
or built-in type in any case; the names claimed since the last reset are distinct; and each claim is
answered with the sanitised name or, if that is taken, with the least free counter behind it. -/
theorem transcript_safe_distinct_least (calls : List Call) :
    (∀ call answer?, (call, answer?) ∈ sanitizer.transcript calls →
      call.spelling? ≠ some .kebab →
        (call = .reset ∧ answer? = none) ∨
          ∃ name, answer? = some name ∧ IsName name.toList ∧
            Text.lowerString name ∉ reservedWords ∧ Text.lowerString name ∉ builtinTypes) ∧
      (claimedSinceReset (sanitizer.transcript calls)).Nodup ∧
      ∀ before name spelling after, calls = before ++ .claim name spelling :: after →
        ∃ answer, (sanitizer.transcript calls)[before.length]? =
            some (.claim name spelling, some answer) ∧
          IsLeastFree (claimedSinceReset (sanitizer.transcript before))
            (Naming.sanitize vocabulary name spelling) answer := by
  refine ⟨?_, ?_, ?_⟩
  · intro call answer? hmem hcall
    obtain ⟨before, rfl⟩ := Sanitizer.exists_of_mem_transcript hmem
    refine (isSafe_perform (sanitizer.afterAll_vocabulary before) hcall).imp_right ?_
    rintro ⟨name, hname, hsafe⟩
    exact ⟨name, hname, hsafe.isName, hsafe.not_mem_words⟩
  · have hnodup := Sanitizer.nodup_afterAll (s := sanitizer) List.nodup_nil calls
    rw [← List.nodup_reverse, Sanitizer.afterAll_used] at hnodup
    exact hnodup
  · rintro before name spelling after rfl
    exact Sanitizer.getElem?_transcript_claim rfl before after name spelling

/-- Two claims of a reserved word, one of them after a reset, and a name that begins with a digit. -/
theorem transcript_safe_distinct_least_class :
    sanitizer.transcript [.claim "class" .snake, .claim "Class" .snake, .sanitize "1-st" .camel,
        .reset, .claim "class" .screamingSnake] =
      [(.claim "class" .snake, some "class_"), (.claim "Class" .snake, some "class_2"),
        (.sanitize "1-st" .camel, some "_1St"), (.reset, none),
        (.claim "class" .screamingSnake, some "CLASS_")] ∧
      (∃ name, some "class_2" = some name ∧ IsName name.toList ∧
        Text.lowerString name ∉ reservedWords ∧ Text.lowerString name ∉ builtinTypes) ∧
      IsLeastFree ["class_"] "class_" "class_2" := by
  have hrun : sanitizer.transcript [.claim "class" .snake, .claim "Class" .snake,
        .sanitize "1-st" .camel, .reset, .claim "class" .screamingSnake] =
      [(.claim "class" .snake, some "class_"), (.claim "Class" .snake, some "class_2"),
        (.sanitize "1-st" .camel, some "_1St"), (.reset, none),
        (.claim "class" .screamingSnake, some "CLASS_")] := by decide +kernel
  have hbefore : sanitizer.transcript [.claim "class" .snake] =
      [(.claim "class" .snake, some "class_")] := by decide +kernel
  have hword : Naming.sanitize vocabulary "Class" .snake = "class_" := by decide +kernel
  obtain ⟨hsafe, -, hleast⟩ := transcript_safe_distinct_least [.claim "class" .snake,
    .claim "Class" .snake, .sanitize "1-st" .camel, .reset, .claim "class" .screamingSnake]
  refine ⟨hrun, ?_, ?_⟩
  · have hanswer := hsafe (.claim "Class" .snake) (some "class_2") (by rw [hrun]; simp) (by decide)
    exact hanswer.resolve_left fun hreset => nomatch hreset.1
  · obtain ⟨answer, hanswer, hfree⟩ := hleast [.claim "class" .snake] "Class" .snake _ rfl
    rw [hrun] at hanswer
    cases hanswer
    rw [hbefore, hword] at hfree
    exact hfree

end SchemaTypings.Typescript
