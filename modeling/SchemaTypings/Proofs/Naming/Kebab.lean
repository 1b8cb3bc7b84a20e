/-
  SchemaTypings.Proofs.Naming.Kebab

  What stays of the punctuation of a name in its kebab spelling.  Lower case makes small letters and
  characters beyond ASCII out of others, so a sign of ASCII comes from the name itself; and since a
  full stop parts words, a kebab name has none.
-/
import SchemaTypings.Proofs.Naming.Identifier
import SchemaTypings.Proofs.Text.CaseMapping

namespace SchemaTypings

/-! ## Lower case -/

namespace Text

/-- A character that lower case makes out of no other: one below the small letters. -/
def isUnmade (c : Char) : Bool := 0 < c.toNat && c.toNat < 'a'.toNat

theorem eq_of_mem_lowerChar {c d : Char} (hd : isUnmade d = true) (h : d ∈ lowerChar c) : c = d := by
  rcases lowerChar_cases c with ⟨hascii, heq⟩ | ⟨-, ⟨-, heq⟩ | ⟨code, hcode, heq⟩ | ⟨-, heq⟩⟩ <;>
    rw [heq] at h
  · have hlook := Naming.forall_ascii (p := fun c => c.toLower = c || !isUnmade c.toLower)
      (by decide) hascii
    rw [List.mem_singleton.mp h] at hd ⊢
    simpa [hd, eq_comm] using hlook
  · rw [List.mem_cons, List.mem_singleton] at h
    rcases h with rfl | rfl
    · exact absurd hd (by decide)
    · exact absurd hd (by decide)
  · obtain ⟨first, last, step, image, hrun, -, -, -, rfl⟩ :=
      exists_run_of_imageInRuns (p := fun _ _ _ image => Nat.ble 'a'.toNat image)
        (by decide) hcode
    have hnat := toNat_ofNat_of_areAlike (areAlike_of_lowerRuns hcode)
    rw [List.mem_singleton.mp h, isUnmade, hnat, Bool.and_eq_true, decide_eq_true_eq,
      decide_eq_true_eq] at hd
    rw [Nat.ble_eq] at hrun
    omega
  · exact (List.mem_singleton.mp h).symm

theorem mem_of_mem_lowerAfter {d : Char} (hd : isUnmade d = true) {before cs : List Char}
    (h : d ∈ lowerAfter before cs) : d ∈ cs := by
  rcases mem_lowerAfter h with rfl | rfl | ⟨c, hc, h⟩
  · exact absurd hd (by decide)
  · exact absurd hd (by decide)
  · exact eq_of_mem_lowerChar hd h ▸ hc

end Text

/-! ## Kebab names -/

namespace Naming

/-- A sign in a word of a name is in the name, and is no separator. -/
theorem mem_of_mem_words {name word : List Char} (hword : word ∈ words name) {c : Char}
    (hc : c ∈ word) (hunmade : Text.isUnmade c = true) : c ∈ name ∧ isSeparator c = false := by
  have hne : c ≠ '_' := fun heq => underscore_not_mem_of_mem_words hword (heq ▸ hc)
  have hlower := Text.mem_of_mem_splitAt (List.mem_filter.mp hword).1 hc
  have hmark := (mem_markWords (Text.mem_of_mem_lowerAfter hunmade hlower)).resolve_left hne
  obtain ⟨d, hd, heq⟩ := List.mem_map.mp hmark
  split at heq
  · exact absurd heq.symm hne
  · next hsep => exact heq ▸ ⟨hd, by simpa using hsep⟩

/-- A sign in a kebab name stands between words, or is in the name and is no separator. -/
theorem mem_of_mem_kebab {name : List Char} {c : Char} (hc : c ∈ kebab name)
    (hunmade : Text.isUnmade c = true) : c = '-' ∨ c ∈ name ∧ isSeparator c = false := by
  rcases Text.mem_of_mem_joinWith hc with hc | ⟨word, hword, hc⟩
  · exact .inl (List.mem_singleton.mp hc)
  · exact .inr (mem_of_mem_words hword hc hunmade)

theorem dot_not_mem_kebab (name : List Char) : '.' ∉ kebab name := by
  intro hmem
  rcases mem_of_mem_kebab hmem (by decide) with hdash | ⟨-, hsep⟩
  · exact absurd hdash (by decide)
  · exact absurd hsep (by decide)

end Naming
end SchemaTypings
