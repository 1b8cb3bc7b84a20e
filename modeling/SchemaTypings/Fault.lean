/-
  SchemaTypings.Fault

  Failures that are not errors of the input's meaning: a value is used in a way that its type does
  not allow, or something outside cannot supply what is asked of it.
-/

namespace SchemaTypings

/-- Why a step cannot be carried out on the value at hand. -/
inductive Fault where
  /-- Values of this type have no such operation. -/
  | noSuchOperation
  /-- The operation does not take values of this type. -/
  | unfitOperand
  /-- A number past the range of those that can be counted with. -/
  | outOfRange
  /-- A text with more characters than can be kept. -/
  | outOfMemory
  /-- A reference nested more deeply than there is room for. -/
  | outOfReach
  /-- Digits that stand for no number. -/
  | unreadableNumber
  /-- An integer with more digits than are written. -/
  | numeralTooLong
  /-- A path without a character names no target. -/
  | emptyTarget
  /-- The source of external documents has none for the reference. -/
  | unresolvedReference
deriving DecidableEq

/-- What is made of an outcome is made of a success. -/
theorem exists_of_map_eq_ok {ε α β : Type} {f : α → β} {outcome : Except ε α} {b : β}
    (h : outcome.map f = .ok b) : ∃ a, outcome = .ok a ∧ f a = b := by
  cases outcome with
  | error e => cases h
  | ok a =>
    cases h
    exact ⟨a, rfl, rfl⟩

/-- What is made of a success fails only where the outcome does. -/
theorem eq_error_of_map_eq_error {ε α β : Type} {f : α → β} {outcome : Except ε α} {e : ε}
    (h : outcome.map f = .error e) : outcome = .error e := by
  cases outcome with
  | error e' =>
    cases h
    rfl
  | ok a => cases h

/-- What follows an outcome follows a success. -/
theorem exists_of_bind_eq_ok {ε α β : Type} {outcome : Except ε α} {f : α → Except ε β} {b : β}
    (h : outcome >>= f = .ok b) : ∃ a, outcome = .ok a ∧ f a = .ok b := by
  cases outcome with
  | error e => cases h
  | ok a => exact ⟨a, rfl, h⟩

/-- A success is followed by what its result is followed by. -/
theorem bind_eq_ok {ε α β : Type} {outcome : Except ε α} {f : α → Except ε β} {a : α} {b : β}
    (h : outcome = .ok a) (hf : f a = .ok b) : outcome >>= f = .ok b := by
  rw [h]
  exact hf

/-- A success does not depend on how failures are told. -/
theorem eq_ok_of_mapError_eq_ok {ε ε' α : Type} {f : ε → ε'} {outcome : Except ε α} {a : α}
    (h : outcome.mapError f = .ok a) : outcome = .ok a := by
  cases outcome with
  | error e => cases h
  | ok b =>
    cases h
    rfl

/-- What has a result is a success. -/
theorem exists_ok_of_isSome_toOption {ε α : Type} {outcome : Except ε α}
    (h : outcome.toOption.isSome) : ∃ a, outcome = .ok a := by
  cases outcome with
  | error e => cases h
  | ok a => exact ⟨a, rfl⟩

/-- A success is told by what is made of its result. -/
theorem exists_ok_of_map_toOption {ε α β : Type} {f : α → β} {outcome : Except ε α} {b : β}
    (h : outcome.toOption.map f = some b) : ∃ a, outcome = .ok a ∧ f a = b := by
  cases outcome with
  | error e => cases h
  | ok a => exact ⟨a, rfl, Option.some.inj h⟩

end SchemaTypings
