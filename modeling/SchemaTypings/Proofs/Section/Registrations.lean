/-
  SchemaTypings.Proofs.Section.Registrations

  What a registry holds after any calls on it.  The builder under a name is settled by the accepted
  registrations of that name, in any case, since it was last removed: the last of them that replaces,
  or else the first.  The queries agree on which names have one.
-/
import SchemaTypings.Registry
import Mathlib.Data.List.Induction
import Mathlib.Data.String.Basic

namespace SchemaTypings.Registry

/-! ## Calls -/

/-- A call on a registry. -/
inductive Call where
  /-- A registration; what is no builder is missing. -/
  | register (name : String) (candidate? : Option SectionBuilder) (replace : Bool)
  | unregister (name : String)
  /-- A look-up of the builder under a name. -/
  | get (name : String)

/-- The registry that a call makes of one, unless it fails. -/
def Call.run (r : Registry) : Call → Except RegistryError Registry
  | .register name candidate? replace => r.register name candidate? replace
  | .unregister name => .ok (r.unregister name)
  | .get name => (r.get name).map fun _ => r

/-- The registry after a call.  One that fails leaves it as it was. -/
def after (r : Registry) (call : Call) : Registry := (call.run r).toOption.getD r

/-- The registry after calls of which the first meets an empty one. -/
def afterAll (calls : List Call) : Registry := calls.foldl after {}

/-! ## Registrations of a name -/

/-- An accepted registration. -/
structure Registration where
  builder : SectionBuilder
  replaces : Bool

/-- The registration under a key that a call is, if it is accepted. -/
def Call.registration? (k : String) : Call → Option Registration
  | .register name (some builder) replace => if key name = k then some ⟨builder, replace⟩ else none
  | _ => none

/-- Whether a call removes a key. -/
def Call.removes (k : String) : Call → Bool
  | .unregister name => key name = k
  | _ => false

/-- The calls since the last that removes a key. -/
def since (k : String) (calls : List Call) : List Call :=
  (calls.reverse.takeWhile fun call => !call.removes k).reverse

/-- The registrations under a key since its last removal. -/
def registrations (k : String) (calls : List Call) : List Registration :=
  (since k calls).filterMap (Call.registration? k)

/-- The registration that counts: the last that replaces, or else the first. -/
def settled? (rs : List Registration) : Option Registration :=
  (rs.filter Registration.replaces).getLast?.or rs.head?

/-- Whether a key is registered by a call behind which none removes it. -/
def IsHeld (k : String) (calls : List Call) : Prop :=
  ∃ front name builder replace behind,
    calls = front ++ .register name (some builder) replace :: behind ∧ key name = k ∧
      ∀ other, .unregister other ∈ behind → key other ≠ k

variable {k : String} {calls : List Call} {call : Call}

theorem registrations_concat : registrations k (calls ++ [call]) =
    if call.removes k then [] else registrations k calls ++ (call.registration? k).toList := by
  rw [registrations, since, List.reverse_append, List.reverse_singleton, List.singleton_append,
    List.takeWhile_cons]
  cases hremoves : call.removes k with
  | true => rfl
  | false =>
    rw [Bool.not_false, if_pos rfl, List.reverse_cons, List.filterMap_append]
    cases hreg : call.registration? k <;> simp [registrations, since, hreg]

/-- A further registration counts if it replaces, or if it is the first. -/
theorem settled?_concat (rs : List Registration) (next : Registration) :
    settled? (rs ++ [next]) =
      if next.replaces then some next else (settled? rs).or (some next) := by
  rw [settled?, settled?, List.filter_append]
  cases hreplaces : next.replaces with
  | true => simp [hreplaces]
  | false => cases rs <;> simp [hreplaces]

theorem settled?_eq_none_iff {rs : List Registration} : settled? rs = none ↔ rs = [] := by
  rw [settled?, Option.or_eq_none_iff, List.head?_eq_none_iff]
  refine ⟨And.right, ?_⟩
  rintro rfl
  exact ⟨rfl, rfl⟩

theorem isHeld_concat_iff : IsHeld k (calls ++ [call]) ↔
    call.removes k = false ∧ (IsHeld k calls ∨ (call.registration? k).isSome = true) := by
  -- the registration that holds is the last call or was made before it
  constructor
  · rintro ⟨front, name, builder, replace, behind, heq, hkey, hkept⟩
    rcases List.eq_nil_or_concat behind with rfl | ⟨more, last, rfl⟩
    · -- The call itself is the registration.
      obtain ⟨rfl, hcall⟩ := List.append_inj' heq rfl
      cases hcall
      exact ⟨rfl, .inr (by simp [Call.registration?, hkey])⟩
    · rw [List.concat_eq_append, ← List.cons_append, ← List.append_assoc] at heq
      obtain ⟨rfl, hlast⟩ := List.append_inj' heq rfl
      cases hlast
      refine ⟨?_, .inl ⟨front, name, builder, replace, more, rfl, hkey, fun other hother =>
        hkept other (by simp [hother])⟩⟩
      cases call with
      | register | get => rfl
      | unregister other => simpa [Call.removes] using hkept other (by simp)
  · rintro ⟨hremoves, ⟨front, name, builder, replace, behind, rfl, hkey, hkept⟩ | hreg⟩
    · refine ⟨front, name, builder, replace, behind ++ [call], by simp, hkey, fun other hother => ?_⟩
      rcases List.mem_append.mp hother with hother | hother
      · exact hkept other hother
      · rw [← List.mem_singleton.mp hother] at hremoves
        simpa [Call.removes] using hremoves
    · cases call with
      | unregister | get => cases hreg
      | register name candidate? replace =>
        cases candidate? with
        | none => cases hreg
        | some builder =>
          refine ⟨calls, name, builder, replace, [], rfl, ?_, by simp⟩
          by_contra hkey
          simp [Call.registration?, hkey] at hreg

/-- A key is held exactly if it has been registered since its last removal. -/
theorem registrations_ne_nil_iff (k : String) (calls : List Call) :
    registrations k calls ≠ [] ↔ IsHeld k calls := by
  induction calls using List.reverseRecOn with
  | nil =>
    refine iff_of_false (fun hne => hne rfl) ?_
    rintro ⟨front, name, builder, replace, behind, heq, -⟩
    exact absurd heq.symm (by simp)
  | append_singleton calls call ih =>
    rw [registrations_concat, isHeld_concat_iff, ← ih]
    cases call.removes k <;> cases call.registration? k <;> simp

/-! ## One call -/

/-- A builder is accepted; it takes the key unless another has it and is not to be replaced. -/
theorem exists_register (r : Registry) (name : String) (builder : SectionBuilder)
    (replace : Bool) : ∃ next, r.register name (some builder) replace = .ok next ∧
      ∀ k, next.builders.get? k =
        if key name = k then
          if replace then some builder else (r.builders.get? k).or (some builder)
        else r.builders.get? k := by
  rw [register]
  split
  · next hkept =>
    rw [Bool.and_eq_true, Entries.has_eq_isSome, Bool.not_eq_true'] at hkept
    refine ⟨r, rfl, fun k => ?_⟩
    split
    · next hkey =>
      obtain ⟨held, hheld⟩ := Option.isSome_iff_exists.mp hkept.1
      rw [← hkey, hkept.2, hheld]
      rfl
    · rfl
  · next hput =>
    refine ⟨_, rfl, fun k => ?_⟩
    split
    · next hkey =>
      subst hkey
      rw [Entries.get?_insert_self]
      split
      · rfl
      · next hreplace =>
        have hmissing : r.builders.get? (key name) = none := by
          simpa [Entries.has_eq_isSome, hreplace] using hput
        rw [hmissing]
        rfl
    · next hkey => exact Entries.get?_insert_of_ne _ _ hkey

/-- What a call makes of the builder under a key. -/
theorem get?_after (r : Registry) (call : Call) (k : String) :
    (r.after call).builders.get? k =
      if call.removes k then none
      else
        match call.registration? k with
        | some ⟨builder, replaces⟩ =>
          if replaces then some builder else (r.builders.get? k).or (some builder)
        | none => r.builders.get? k := by
  cases call with
  | register name candidate? replace =>
    cases candidate? with
    | none => rfl
    | some builder =>
      obtain ⟨next, hnext, hget⟩ := exists_register r name builder replace
      rw [after, Call.run, hnext]
      refine (hget k).trans ?_
      by_cases hkey : key name = k <;> simp [Call.removes, Call.registration?, hkey]
  | unregister name =>
    refine (Entries.get?_erase r.builders (key name) k).trans ?_
    simp [Call.removes, Call.registration?]
  | get name =>
    rw [after, Call.run]
    cases r.get name <;> rfl

/-- A call leaves each key at most one builder. -/
theorem nodup_keys_after {r : Registry} (h : r.builders.keys.Nodup) (call : Call) :
    (r.after call).builders.keys.Nodup := by
  cases call with
  | register name candidate? replace =>
    cases candidate? with
    | none => exact h
    | some builder =>
      rw [after, Call.run, register]
      split
      · exact h
      · exact Entries.nodup_keys_insert h _ _
  | unregister name => exact h.sublist (List.filter_sublist.map Prod.fst)
  | get name =>
    rw [after, Call.run]
    cases r.get name <;> exact h

/-! ## All calls -/

theorem afterAll_concat (calls : List Call) (call : Call) :
    afterAll (calls ++ [call]) = (afterAll calls).after call := by
  rw [afterAll, List.foldl_append]
  rfl

/-- The builder under a key is the one that is settled by its registrations. -/
theorem get?_afterAll (calls : List Call) (k : String) :
    (afterAll calls).builders.get? k =
      (settled? (registrations k calls)).map Registration.builder := by
  induction calls using List.reverseRecOn with
  | nil => rfl
  | append_singleton calls call ih =>
    rw [afterAll_concat, get?_after, registrations_concat, ih]
    split
    · rfl
    · cases call.registration? k with
      | none => rw [Option.toList_none, List.append_nil]
      | some next =>
        obtain ⟨builder, replaces⟩ := next
        rw [Option.toList_some, settled?_concat]
        cases replaces <;> cases settled? (registrations k calls) <;> rfl

theorem nodup_keys_afterAll (calls : List Call) : (afterAll calls).builders.keys.Nodup := by
  induction calls using List.reverseRecOn with
  | nil => exact List.nodup_nil
  | append_singleton calls call ih =>
    rw [afterAll_concat]
    exact nodup_keys_after ih call

/-- The names are those that are held. -/
theorem mem_keys_afterAll_iff {calls : List Call} {k : String} :
    k ∈ (afterAll calls).builders.keys ↔ IsHeld k calls := by
  rw [← registrations_ne_nil_iff, Ne, ← settled?_eq_none_iff, ← Option.map_eq_none_iff,
    ← get?_afterAll, Entries.get?_eq_none_iff, Decidable.not_not]

theorem mem_names_iff {r : Registry} {k : String} : k ∈ r.names ↔ k ∈ r.builders.keys :=
  List.mem_mergeSort

/-- The names are sorted, each listed once. -/
theorem pairwise_lt_names {r : Registry} (h : r.builders.keys.Nodup) :
    r.names.Pairwise (· < ·) := by
  have htrans : ∀ a b c : String, decide (a ≤ b) = true → decide (b ≤ c) = true →
      decide (a ≤ c) = true := fun a b c hab hbc =>
    decide_eq_true (le_trans (of_decide_eq_true hab) (of_decide_eq_true hbc))
  have htotal : ∀ a b : String, (decide (a ≤ b) || decide (b ≤ a)) = true := fun a b => by
    simpa using le_total a b
  have hle := List.pairwise_mergeSort htrans htotal r.builders.keys
  have hne : r.names.Pairwise (· ≠ ·) := (List.mergeSort_perm _ _).nodup_iff.mpr h
  exact (hle.and hne).imp fun ⟨hle, hne⟩ => lt_of_le_of_ne (of_decide_eq_true hle) hne

/-- After any calls the queries agree on which names have a builder, in whatever case they are asked
for: those with an accepted registration behind which none is removed.  They are listed once each
and sorted.  The builder is that of the last registration since the last removal that replaces, or
else of the first.  What is refused and what is looked up changes nothing. -/
theorem queries_agree (calls : List Call) :
    (afterAll calls).names.Pairwise (· < ·) ∧
    (∀ k, k ∈ (afterAll calls).names ↔ IsHeld k calls) ∧
    (∀ name, ((afterAll calls).isSupported name = true ↔ IsHeld (key name) calls) ∧
      ((∃ builder, (afterAll calls).get name = .ok builder) ↔ IsHeld (key name) calls) ∧
      ∀ builder, (afterAll calls).get name = .ok builder ↔
        (settled? (registrations (key name) calls)).map Registration.builder = some builder) ∧
    ∀ front call behind, calls = front ++ call :: behind →
      (∃ name replace, call = .register name none replace) ∨ (∃ name, call = .get name) →
        afterAll calls = afterAll (front ++ behind) := by
  refine ⟨pairwise_lt_names (nodup_keys_afterAll calls),
    fun k => mem_names_iff.trans mem_keys_afterAll_iff, fun name => ?_, ?_⟩
  · have hget : ∀ builder, (afterAll calls).get name = .ok builder ↔
        (settled? (registrations (key name) calls)).map Registration.builder = some builder := by
      intro builder
      rw [← get?_afterAll, get]
      cases (afterAll calls).builders.get? (key name) with
      | none => simp
      | some held => simp
    refine ⟨Entries.has_iff.trans mem_keys_afterAll_iff, ?_, hget⟩
    simp only [hget]
    rw [← Option.isSome_iff_exists, Option.isSome_map, Option.isSome_iff_ne_none, Ne,
      settled?_eq_none_iff]
    exact registrations_ne_nil_iff _ _
  · rintro front call behind rfl hidle
    -- neither call changes the registry, so that it may be left out of the history
    have hsame : (afterAll front).after call = afterAll front := by
      rcases hidle with ⟨name, replace, rfl⟩ | ⟨name, rfl⟩
      · rfl
      · rw [after, Call.run]
        cases (afterAll front).get name <;> rfl
    have happend : ∀ more, afterAll (front ++ more) = more.foldl after (afterAll front) :=
      fun more => List.foldl_append
    rw [happend, happend, List.foldl_cons, hsame]

/-- Calls in front of a registration that is refused. -/
def earlierCalls : List Call :=
  [.register "Événements" (some (.standard .events)) false,
    .register "STATES" (some (.standard .states)) true, .unregister "States",
    .register "ÉVÉNEMENTS" (some (.standard .actions)) true]

/-- Calls behind it. -/
def laterCalls : List Call :=
  [.register "évéNEMENTS" (some (.standard .channels)) false, .get "states"]

/-- Calls in several spellings of two names. -/
def accentedCalls : List Call :=
  earlierCalls ++ .register "événements" none true :: laterCalls

theorem queries_agree_accented :
    (afterAll accentedCalls).get "ÉvÉnements" = .ok (.standard .actions) ∧
      "événements" ∈ (afterAll accentedCalls).names ∧
      (afterAll accentedCalls).isSupported "states" = false ∧
      afterAll accentedCalls = afterAll (earlierCalls ++ laterCalls) := by
  obtain ⟨-, hnames, hqueries, hidle⟩ := queries_agree accentedCalls
  have hget : (afterAll accentedCalls).get "ÉvÉnements" = .ok (.standard .actions) :=
    ((hqueries _).2.2 _).mpr (by decide +kernel)
  have hkey : key "ÉvÉnements" = "événements" := by decide +kernel
  have hheld : IsHeld (key "ÉvÉnements") accentedCalls := (hqueries _).2.1.mp ⟨_, hget⟩
  refine ⟨hget, (hnames _).mpr (hkey ▸ hheld), ?_, hidle _ _ _ rfl (.inl ⟨_, _, rfl⟩)⟩
  rw [← Bool.not_eq_true, (hqueries "states").1, ← registrations_ne_nil_iff]
  decide +kernel

end SchemaTypings.Registry
