/-
  SchemaTypings.Proofs.Text.CaseMapping

  Where the case mappings lead: letters with case become such letters, enclosed ones stay enclosed,
  and one mark becomes a letter.

  The tables are compared range by range, since most runs of a mapping lie in one range of letters
  with their images.
-/
import SchemaTypings.Text.Case
import Mathlib.Algebra.Group.Nat.Defs

namespace SchemaTypings.Text

/-! ## Cases of the mappings -/

/-- Beyond ASCII a character has a listed sequence, an image in a run, or stays. -/
theorem mapBeyondAscii_cases (sequences : List (Nat × List Nat)) (runs : List Nat) (c : Char) :
    (∃ codes, (c.toNat, codes) ∈ sequences ∧
        mapBeyondAscii sequences runs c = codes.map Char.ofNat) ∨
      (∃ code, imageInRuns runs c.toNat = some code ∧
        mapBeyondAscii sequences runs c = [Char.ofNat code]) ∨
      imageInRuns runs c.toNat = none ∧ mapBeyondAscii sequences runs c = [c] := by
  rw [mapBeyondAscii]
  split
  · next codes hcodes =>
    obtain ⟨front, behind, heq, -⟩ := List.lookup_eq_some_iff.mp hcodes
    exact .inl ⟨codes, by simp [heq], rfl⟩
  · split
    · next code hcode => exact .inr (.inl ⟨code, hcode, rfl⟩)
    · next hnone => exact .inr (.inr ⟨hnone, rfl⟩)

/-- The one sequence in lower case is that of the dotted capital. -/
theorem lowerChar_cases (c : Char) :
    isAscii c = true ∧ lowerChar c = [c.toLower] ∨
      isAscii c = false ∧
        (c = 'İ' ∧ lowerChar c = ['i', '\u0307'] ∨
          (∃ code, imageInRuns lowerRuns c.toNat = some code ∧ lowerChar c = [Char.ofNat code]) ∨
          imageInRuns lowerRuns c.toNat = none ∧ lowerChar c = [c]) := by
  cases hascii : isAscii c with
  | true => exact .inl ⟨rfl, lowerChar_of_isAscii hascii⟩
  | false =>
    refine .inr ⟨rfl, ?_⟩
    rw [lowerChar, if_neg (by simp [hascii])]
    refine (mapBeyondAscii_cases lowerSequences lowerRuns c).imp_left ?_
    rintro ⟨codes, hentry, heq⟩
    obtain ⟨hnat, rfl⟩ := Prod.mk.inj (List.mem_singleton.mp hentry)
    exact ⟨by rw [← Char.ofNat_toNat c, hnat], heq⟩

theorem titleChar_cases (c : Char) :
    isAscii c = true ∧ titleChar c = [c.toUpper] ∨
      isAscii c = false ∧
        ((∃ codes, (c.toNat, codes) ∈ titleSequences ∧ titleChar c = codes.map Char.ofNat) ∨
          (∃ code, imageInRuns titleRuns c.toNat = some code ∧ titleChar c = [Char.ofNat code]) ∨
          imageInRuns titleRuns c.toNat = none ∧ titleChar c = [c]) := by
  cases hascii : isAscii c with
  | true => exact .inl ⟨rfl, titleChar_of_isAscii hascii⟩
  | false =>
    rw [titleChar, if_neg (by simp [hascii])]
    exact .inr ⟨rfl, mapBeyondAscii_cases titleSequences titleRuns c⟩

/-! ## Runs -/

/-- Whether each run passes. -/
def allRuns (p : Nat → Nat → Nat → Nat → Bool) : List Nat → Bool
  | first :: last :: step :: image :: rest => p first last step image && allRuns p rest
  | _ => true

theorem exists_run_of_imageInRuns {p : Nat → Nat → Nat → Nat → Bool} {runs : List Nat}
    {n code : Nat} (hruns : allRuns p runs = true) (h : imageInRuns runs n = some code) :
    ∃ first last step image, p first last step image = true ∧ first ≤ n ∧ n ≤ last ∧
      (n - first) % step = 0 ∧ code = image + (n - first) := by
  fun_induction imageInRuns runs n with
  | case1 first last step image rest n hin =>
    rw [allRuns, Bool.and_eq_true] at hruns
    cases h
    exact ⟨first, last, step, image, hruns.1, hin.1, hin.2.1, hin.2.2, rfl⟩
  | case2 first last step image rest n _ ih =>
    rw [allRuns, Bool.and_eq_true] at hruns
    exact ih hruns.2 h
  | case3 => cases h

/-! ## Texts in lower case -/

/-- A character in lower case is a small sigma or comes from a character of the text. -/
theorem mem_lowerAfter {d : Char} {before cs : List Char} (h : d ∈ lowerAfter before cs) :
    d = 'ς' ∨ d = 'σ' ∨ ∃ c ∈ cs, d ∈ lowerChar c := by
  induction cs generalizing before with
  | nil => cases h
  | cons c rest ih =>
    rw [lowerAfter] at h
    rcases List.mem_append.mp h with h | h
    · split at h
      · split at h
        · exact .inl (List.mem_singleton.mp h)
        · exact .inr (.inl (List.mem_singleton.mp h))
      · exact .inr (.inr ⟨c, List.mem_cons_self, h⟩)
    · rcases ih h with h | h | ⟨e, he, h⟩
      · exact .inl h
      · exact .inr (.inl h)
      · exact .inr (.inr ⟨e, List.mem_cons_of_mem c he, h⟩)

/-! ## Ranges -/

/-- The code points of half-open ranges, as the bits of a number. -/
def bitsOf : List Nat → Nat
  | low :: high :: rest => (2 ^ (high - low) - 1) <<< low ||| bitsOf rest
  | _ => 0

/-- Whether ranges follow one another. -/
def areRising : Nat → List Nat → Bool
  | start, low :: high :: rest =>
    Nat.ble start low && Nat.ble low high && areRising high rest
  | _, _ => true

theorem testBit_bitsOf_cons {low high n : Nat} {rest : List Nat} :
    (bitsOf (low :: high :: rest)).testBit n = true ↔
      (low ≤ n ∧ n < high) ∨ (bitsOf rest).testBit n = true := by
  rw [bitsOf, Nat.testBit_or, Nat.testBit_shiftLeft, Nat.testBit_two_pow_sub_one, Bool.or_eq_true,
    Bool.and_eq_true, decide_eq_true_eq, decide_eq_true_eq]
  apply or_congr_left
  omega

theorem testBit_of_inBounds {bounds : List Nat} {n : Nat} (h : inBounds bounds n = true) :
    (bitsOf bounds).testBit n = true := by
  fun_induction inBounds bounds n with
  | case1 => cases h
  | case2 low high rest n hlow hhigh =>
    exact testBit_bitsOf_cons.mpr (.inl ⟨Nat.not_lt.mp hlow, hhigh⟩)
  | case3 low high rest n hlow hhigh ih => exact testBit_bitsOf_cons.mpr (.inr (ih h))
  | case4 => cases h

/-- Of ranges that follow one another a look for a code point finds the one it is in. -/
theorem inBounds_of_testBit {start n : Nat} {bounds : List Nat}
    (hrising : areRising start bounds = true) (h : (bitsOf bounds).testBit n = true) :
    start ≤ n ∧ inBounds bounds n = true := by
  fun_induction areRising start bounds with
  | case1 start low high rest ih =>
    simp only [Bool.and_eq_true, Nat.ble_eq] at hrising
    obtain ⟨⟨hstart, hlow⟩, hrest⟩ := hrising
    rw [inBounds]
    rcases testBit_bitsOf_cons.mp h with hin | hmore
    · rw [if_neg (by omega), if_pos hin.2]
      exact ⟨by omega, rfl⟩
    · obtain ⟨hhigh, hin⟩ := ih hrest hmore
      rw [if_neg (by omega), if_neg (by omega)]
      exact ⟨by omega, hin⟩
  | case2 start bounds hshort =>
    rw [bitsOf.eq_def] at h
    split at h
    · exact absurd rfl (hshort _ _ _)
    · simp at h

theorem testBit_of_land_eq {a b n : Nat} (h : a &&& b = a) (hn : a.testBit n = true) :
    b.testBit n = true := by
  rw [← h, Nat.testBit_and, Bool.and_eq_true] at hn
  exact hn.2

theorem inBounds_eq_false_of_land_eq {a n : Nat} {bounds : List Nat} (h : a &&& bitsOf bounds = 0)
    (hn : a.testBit n = true) : inBounds bounds n = false := by
  rw [← Bool.not_eq_true]
  intro hin
  have hboth : (a &&& bitsOf bounds).testBit n = true := by
    rw [Nat.testBit_and, hn, testBit_of_inBounds hin]
    rfl
  rw [h, Nat.zero_testBit] at hboth
  cases hboth

/-! ## Letters with case -/

/-- Signs with case that are letters in a circle or a box. -/
def enclosedBits : Nat := bitsOf [9398, 9450, 127280, 127306, 127312, 127338, 127344, 127370]

/-- The letters with case of all scripts. -/
def letterBits : Nat := bitsOf (65 :: 91 :: 97 :: 123 :: casedBounds) ^^^ enclosedBits

/-- Whether two code points are those of letters with case, or of enclosed letters. -/
def areAlike (n code : Nat) : Bool :=
  (letterBits.testBit n && letterBits.testBit code) ||
    (enclosedBits.testBit n && enclosedBits.testBit code)

/-- Whether a run leads each of its code points to one that is alike. -/
def keepsClass (first last step image : Nat) : Bool :=
  (List.range ((last - first) / step + 1)).all fun k =>
    areAlike (first + step * k) (image + step * k)

theorem areAlike_of_keepsClass {first last step image n : Nat}
    (h : keepsClass first last step image = true) (hfirst : first ≤ n) (hlast : n ≤ last)
    (hstep : (n - first) % step = 0) : areAlike n (image + (n - first)) = true := by
  have hn : step * ((n - first) / step) = n - first := by
    rw [Nat.mul_comm]
    exact Nat.div_mul_cancel (Nat.dvd_of_mod_eq_zero hstep)
  have hle : (n - first) / step ≤ (last - first) / step := Nat.div_le_div_right (by omega)
  have hpoint := List.all_eq_true.mp h ((n - first) / step) (List.mem_range.mpr (by omega))
  rwa [hn, Nat.add_sub_cancel' hfirst] at hpoint

theorem areAlike_of_lowerRuns {n code : Nat} (h : imageInRuns lowerRuns n = some code) :
    areAlike n code = true := by
  obtain ⟨first, last, step, image, hkeeps, hfirst, hlast, hstep, rfl⟩ :=
    exists_run_of_imageInRuns (p := keepsClass) (by decide +kernel) h
  exact areAlike_of_keepsClass hkeeps hfirst hlast hstep

/-- The iota below a letter is a mark, and has a letter in its place at the start of a word. -/
theorem areAlike_of_titleRuns {n code : Nat} (h : imageInRuns titleRuns n = some code) :
    areAlike n code = true ∨ n = 837 ∧ code = 921 := by
  obtain ⟨first, last, step, image, hkeeps, hfirst, hlast, hstep, rfl⟩ :=
    exists_run_of_imageInRuns (p := fun first last step image =>
      keepsClass first last step image || first == 837 && last == 837 && image == 921)
      (by decide +kernel) h
  rcases Bool.or_eq_true_iff.mp hkeeps with hkeeps | hmark
  · exact .inl (areAlike_of_keepsClass hkeeps hfirst hlast hstep)
  · simp only [Bool.and_eq_true, beq_iff_eq] at hmark
    exact .inr ⟨by omega, by omega⟩

/-- The code points of characters. -/
def characterBits : Nat := bitsOf [0, 0xD800, 0xE000, 0x110000]

theorem toNat_ofNat_of_testBit {bits code : Nat} (hbits : bits &&& characterBits = bits)
    (h : bits.testBit code = true) : (Char.ofNat code).toNat = code := by
  have hcode := testBit_of_land_eq hbits h
  have hvalid : code.isValidChar := by
    simp only [characterBits, testBit_bitsOf_cons] at hcode
    rcases hcode with ⟨-, hlt⟩ | ⟨hle, hlt⟩ | hnone
    · exact .inl hlt
    · exact .inr ⟨by omega, hlt⟩
    · simp [bitsOf] at hnone
  rw [Char.ofNat, dif_pos hvalid]
  rfl

theorem toNat_ofNat_of_areAlike {n code : Nat} (h : areAlike n code = true) :
    (Char.ofNat code).toNat = code := by
  simp only [areAlike, Bool.or_eq_true, Bool.and_eq_true] at h
  rcases h with ⟨-, hcode⟩ | ⟨-, hcode⟩
  · exact toNat_ofNat_of_testBit (by decide +kernel) hcode
  · exact toNat_ofNat_of_testBit (by decide +kernel) hcode

end SchemaTypings.Text
