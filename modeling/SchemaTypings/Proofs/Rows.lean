/-
  SchemaTypings.Proofs.Rows

  Rows whose members correspond one by one.
-/
import Mathlib.Data.List.Forall2
import Mathlib.Data.List.Permutation

namespace SchemaTypings

variable {α β γ : Type} {r : α → β → Prop} {s : β → γ → Prop}

theorem exists_left_of_forall₂ {as : List α} {bs : List β} (h : List.Forall₂ r as bs) {b : β}
    (hb : b ∈ bs) : ∃ a ∈ as, r a b := by
  induction h with
  | nil => cases hb
  | cons hab _ ih =>
    rcases List.mem_cons.mp hb with rfl | hb
    · exact ⟨_, List.mem_cons_self, hab⟩
    · obtain ⟨a, ha, hr⟩ := ih hb
      exact ⟨a, List.mem_cons_of_mem _ ha, hr⟩

theorem exists_right_of_forall₂ {as : List α} {bs : List β} (h : List.Forall₂ r as bs) {a : α}
    (ha : a ∈ as) : ∃ b ∈ bs, r a b :=
  exists_left_of_forall₂ h.flip ha

/-- The member at a place of the second row corresponds to the one there of the first. -/
theorem exists_getElem?_left_of_forall₂ {as : List α} {bs : List β} (h : List.Forall₂ r as bs)
    {i : Nat} {b : β} (hb : bs[i]? = some b) : ∃ a, as[i]? = some a ∧ r a b := by
  induction h generalizing i with
  | nil => cases hb
  | cons hab _ ih =>
    cases i with
    | zero =>
      cases hb
      exact ⟨_, rfl, hab⟩
    | succ i => exact ih hb

/-- Members correspond through those of a row between. -/
theorem forall₂_comp {as : List α} {bs : List β} {cs : List γ} (h : List.Forall₂ r as bs)
    (h' : List.Forall₂ s bs cs) : List.Forall₂ (fun a c => ∃ b, r a b ∧ s b c) as cs := by
  induction h generalizing cs with
  | nil =>
    cases h'
    exact .nil
  | cons hab _ ih =>
    cases h' with
    | cons hbc hrest => exact .cons ⟨_, hab, hbc⟩ (ih hrest)

/-- What corresponds to two rows in a row is in two parts. -/
theorem exists_of_forall₂_append {as more : List α} {bs : List β}
    (h : List.Forall₂ r (as ++ more) bs) : ∃ first rest, List.Forall₂ r as first ∧
      List.Forall₂ r more rest ∧ first ++ rest = bs := by
  have hfirst := List.forall₂_take_append bs as more h.flip
  have hrest := List.forall₂_drop_append bs as more h.flip
  exact ⟨_, _, hfirst.flip, hrest.flip, List.take_append_drop _ _⟩

end SchemaTypings
