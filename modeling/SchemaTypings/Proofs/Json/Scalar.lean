/-
  SchemaTypings.Proofs.Json.Scalar

  The texts of null, truth values, integers and strings, which are read back.

  Reading whole values stops at integers with very many digits.  `readScalar?` reads a text that is
  one such value and nothing else, and has no limit; up to the limit it finds what reading finds.
-/
import SchemaTypings.Proofs.Json.Reading
import Mathlib.Algebra.Group.Nat.Defs
import Mathlib.Data.List.Basic
import Mathlib.Data.List.TakeWhile

namespace SchemaTypings.Json

/-! ## Reading -/

/-- The number that a whole text of digits stands for.  Only zero begins with a zero. -/
def readNatural? (cs : List Char) : Option Nat :=
  match wholeDigits cs with
  | (digit :: digits, []) => some (ofDigits (digit :: digits))
  | _ => none

/-- The value that a whole text stands for if that is null, a truth value, a string, or an integer
of any size. -/
def readScalar? : List Char → Option Json
  | '"' :: rest =>
    match stringBody rest with
    | .ok (s, []) => some (.str s)
    | _ => none
  | '-' :: rest => (readNatural? rest).map fun n : Nat => .int (-(n : Int))
  | cs =>
    if cs = "null".toList then some .null
    else if cs = "true".toList then some (.bool true)
    else if cs = "false".toList then some (.bool false)
    else (readNatural? cs).map fun n : Nat => .int (n : Int)

/-- What is read as a number is all of the text, which is made of digits. -/
theorem readNatural?_spec {cs : List Char} {n : Nat} (h : readNatural? cs = some n) :
    cs ≠ [] ∧ (∀ c ∈ cs, c.isDigit = true) ∧ wholeDigits cs = (cs, []) ∧ n = ofDigits cs := by
  rw [readNatural?] at h
  split at h
  · next digit digits hwhole =>
    cases h
    have hcs : cs = digit :: digits ∧ ∀ c ∈ digit :: digits, c.isDigit = true := by
      rw [wholeDigits.eq_def] at hwhole
      split at hwhole
      · cases hwhole
        exact ⟨rfl, List.forall_mem_singleton.mpr rfl⟩
      · obtain ⟨htake, hdrop⟩ := Prod.mk.inj hwhole
        have happend := List.takeWhile_append_dropWhile (p := Char.isDigit) (l := cs)
        rw [hdrop, List.append_nil] at happend
        rw [← htake]
        exact ⟨happend.symm, fun c hc => List.mem_takeWhile_imp hc⟩
    obtain ⟨rfl, hdigits⟩ := hcs
    exact ⟨List.cons_ne_nil _ _, hdigits, hwhole, rfl⟩
  · cases h

/-- A number without a fraction or an exponent is read as an integer, unless it is too long. -/
theorem unsignedNumber_of_readNatural? {cs : List Char} {n : Nat} (h : readNatural? cs = some n)
    (hshort : cs.length ≤ maxIntegerDigits) (negative : Bool) :
    unsignedNumber negative cs = .ok (.int (if negative then -n else n), []) := by
  obtain ⟨hne, -, hwhole, rfl⟩ := readNatural?_spec h
  obtain ⟨digit, digits, rfl⟩ := List.exists_cons_of_ne_nil hne
  rw [unsignedNumber, hwhole]
  show (if (digit :: digits).length > maxIntegerDigits then _ else _) = _
  rw [if_neg (by omega)]

/-- A digit begins a number, with or without a minus in front. -/
theorem readValue_of_isDigit {c : Char} (hc : c.isDigit = true) (depth : Nat) (more : List Char) :
    readValue (depth + 1) (c :: more) = unsignedNumber false (c :: more) ∧
      readValue (depth + 1) ('-' :: c :: more) = unsignedNumber true (c :: more) := by
  constructor
  · rw [readValue.eq_def]
    dsimp only
    split
    -- Every other kind of value begins with a character that is no digit.
    all_goals first
      | rfl
      | next heq =>
        cases heq
        exact absurd hc (by decide)
  · rw [readValue.eq_def]
    dsimp only
    split
    all_goals first
      | next heq => cases heq
      | next heq =>
        cases heq
        exact absurd hc (by decide)
      | next heq =>
        cases heq
        rfl
      | next hother => exact (hother _ rfl).elim

theorem isSpace_of_isDigit {c : Char} (h : c.isDigit = true) : isSpace c = false := by
  rw [Bool.eq_false_iff]
  intro hspace
  simp only [isSpace, Bool.or_eq_true, decide_eq_true_eq] at hspace
  rcases hspace with ((rfl | rfl) | rfl) | rfl
  all_goals cases h

theorem parseChars_of_readValue {cs : List Char} {v : Json}
    (hfirst : ∀ c ∈ cs.head?, isSpace c = false)
    (h : ∀ depth, readValue (depth + 1) cs = .ok (v, [])) : parseChars cs = .ok v := by
  have hskip : skipSpaces cs = cs := by
    cases cs with
    | nil => rfl
    | cons c rest => exact List.dropWhile_cons_of_neg (by simp [hfirst c rfl])
  rw [parseChars, hskip, h (2 * cs.length + 1)]
  rfl

/-- What a text stands for on its own is what reading gives, up to the limit for integers. -/
theorem parseChars_of_readScalar? {cs : List Char} {v : Json} (h : readScalar? cs = some v)
    (hshort : ∀ n, v = .int n → (cs.filter Char.isDigit).length ≤ maxIntegerDigits) :
    parseChars cs = .ok v := by
  have hall : ∀ {ds : List Char}, (∀ c ∈ ds, c.isDigit = true) → ds.filter Char.isDigit = ds :=
    fun hds => List.filter_eq_self.mpr hds
  -- the first character tells the cases apart: a quote, a minus, a word, or else a digit
  rw [readScalar?.eq_def] at h
  split at h
  · next rest =>
    split at h
    · next s hbody =>
      cases h
      refine parseChars_of_readValue (fun c hc => Option.some.inj hc ▸ rfl) fun depth => ?_
      rw [readValue, hbody]
      rfl
    · cases h
  · next rest =>
    obtain ⟨n, hn, rfl⟩ := Option.map_eq_some_iff.mp h
    obtain ⟨hne, hdigits, -⟩ := readNatural?_spec hn
    have hlength := hshort _ rfl
    rw [List.filter_cons_of_neg (by decide), hall hdigits] at hlength
    refine parseChars_of_readValue (fun c hc => Option.some.inj hc ▸ rfl) fun depth => ?_
    obtain ⟨c, more, rfl⟩ := List.exists_cons_of_ne_nil hne
    rw [(readValue_of_isDigit (hdigits c List.mem_cons_self) depth more).2]
    exact unsignedNumber_of_readNatural? hn hlength true
  · split at h
    · next hnull =>
      cases h
      rw [hnull]
      rfl
    split at h
    · next htrue =>
      cases h
      rw [htrue]
      rfl
    split at h
    · next hfalse =>
      cases h
      rw [hfalse]
      rfl
    · obtain ⟨n, hn, rfl⟩ := Option.map_eq_some_iff.mp h
      obtain ⟨hne, hdigits, -⟩ := readNatural?_spec hn
      have hlength := hshort _ rfl
      rw [hall hdigits] at hlength
      obtain ⟨c, more, rfl⟩ := List.exists_cons_of_ne_nil hne
      have hc : c.isDigit = true := hdigits c List.mem_cons_self
      refine parseChars_of_readValue (fun d hd => ?_) fun depth => ?_
      · cases hd
        exact isSpace_of_isDigit hc
      · rw [(readValue_of_isDigit hc depth more).1]
        exact unsignedNumber_of_readNatural? hn hlength false

/-! ## Writing -/

/-- Only zero is written with a zero in front. -/
theorem head?_toDigits {n : Nat} (h : 0 < n) : (Nat.toDigits 10 n).head? ≠ some '0' := by
  induction n using Nat.strongRecOn with
  | _ n ih =>
    rw [Nat.toDigits_eq_if (by decide)]
    split
    · next hsmall =>
      have hdigit : ∀ d < 10, 0 < d → [d.digitChar].head? ≠ some '0' := by decide
      exact hdigit n hsmall h
    · have hfirst := ih (n / 10) (by omega) (by omega)
      rwa [List.head?_append_of_ne_nil _ Nat.toDigits_ne_nil]

theorem readNatural?_toDigits (n : Nat) : readNatural? (Nat.toDigits 10 n) = some n := by
  have hwhole : wholeDigits (Nat.toDigits 10 n) = (Nat.toDigits 10 n, []) := by
    have hdigits : ∀ c ∈ Nat.toDigits 10 n, c.isDigit = true := fun c => isDigit_of_mem_toDigits
    rw [wholeDigits.eq_def]
    split
    · next rest heq =>
      -- A zero in front is the only digit.
      have hzero : n = 0 := by
        by_contra hn
        exact head?_toDigits (Nat.pos_of_ne_zero hn) (by rw [heq]; rfl)
      subst hzero
      cases heq
      rfl
    · rw [List.takeWhile_eq_self_iff.mpr hdigits, List.dropWhile_eq_nil_iff.mpr hdigits]
  have hne : Nat.toDigits 10 n ≠ [] := Nat.toDigits_ne_nil
  obtain ⟨digit, digits, hcons⟩ := List.exists_cons_of_ne_nil hne
  have hvalue := ofDigits_toDigits n
  rw [hcons] at hwhole hvalue
  rw [readNatural?, hcons, hwhole]
  exact congrArg some hvalue

/-- An integer of any size is read back. -/
theorem readScalar?_int (n : Int) : readScalar? (intChars n) = some (.int n) := by
  have hdigits : ∀ c ∈ Nat.toDigits 10 n.natAbs, c.isDigit = true :=
    fun c => isDigit_of_mem_toDigits
  have hread := readNatural?_toDigits n.natAbs
  rw [intChars]
  split
  · next hneg =>
    rw [readScalar?, hread]
    show some (Json.int (-(n.natAbs : Int))) = _
    rw [show -(n.natAbs : Int) = n by omega]
  · next hnonneg =>
    have hword : ∀ word : List Char, (∃ c ∈ word, c.isDigit = false) →
        Nat.toDigits 10 n.natAbs ≠ word := by
      rintro word ⟨c, hc, hno⟩ rfl
      cases hno.symm.trans (hdigits c hc)
    rw [readScalar?.eq_def]
    split
    · next heq => exact absurd heq (hword _ ⟨'"', List.mem_cons_self, rfl⟩)
    · next heq => exact absurd heq (hword _ ⟨'-', List.mem_cons_self, rfl⟩)
    · rw [if_neg (hword _ ⟨'n', by decide, rfl⟩), if_neg (hword _ ⟨'t', by decide, rfl⟩),
        if_neg (hword _ ⟨'f', by decide, rfl⟩), hread]
      show some (Json.int (n.natAbs : Int)) = _
      rw [show (n.natAbs : Int) = n by omega]

theorem readScalar?_str (s : String) : readScalar? (quoted s.toList) = some (.str s) := by
  rw [quoted, List.cons_append, readScalar?, stringBody_quoted]

/-- The digits of an integer are counted without its sign. -/
theorem length_filter_intChars_le_iff {n : Int} {k : Nat} (hk : 0 < k) :
    ((intChars n).filter Char.isDigit).length ≤ k ↔ n.natAbs < 10 ^ k := by
  have hdigits : (Nat.toDigits 10 n.natAbs).filter Char.isDigit = Nat.toDigits 10 n.natAbs :=
    List.filter_eq_self.mpr fun c => isDigit_of_mem_toDigits
  have hfilter : (intChars n).filter Char.isDigit = Nat.toDigits 10 n.natAbs := by
    rw [intChars]
    split
    · rw [List.filter_cons_of_neg (by decide), hdigits]
    · exact hdigits
  rw [hfilter, Nat.length_toDigits_le_iff (by decide) hk]

end SchemaTypings.Json
