/-
  SchemaTypings.Entries

  Keyed entries in the order in which the keys first came.  A later value for a key takes the place
  of the earlier one and keeps its position.
-/

namespace SchemaTypings

/-- Entries with a string key each. -/
abbrev Entries (α : Type) := List (String × α)

namespace Entries

variable {α : Type}

/-- The keys, in order. -/
def keys (es : Entries α) : List String := es.map Prod.fst

/-- Whether there is an entry with this key. -/
def has (es : Entries α) (key : String) : Bool := es.any fun e => e.1 = key

/-- The value of the first entry with this key. -/
def get? (es : Entries α) (key : String) : Option α := (es.find? fun e => e.1 = key).map Prod.snd

/-- The entries with a value put in: in the place of the key if it is there, else at the end. -/
def insert : Entries α → String → α → Entries α
  | [], key, value => [(key, value)]
  | (k, v) :: rest, key, value =>
    if k = key then (k, value) :: rest else (k, v) :: insert rest key value

/-- The entries with all of `more` put in, one after the other. -/
def insertAll (es more : Entries α) : Entries α := more.foldl (fun acc e => acc.insert e.1 e.2) es

/-- The entries without this key. -/
def erase (es : Entries α) (key : String) : Entries α := es.filter fun e => e.1 ≠ key

@[simp] theorem get?_nil (key : String) : get? ([] : Entries α) key = none := rfl

theorem get?_cons (k : String) (v : α) (rest : Entries α) (key : String) :
    get? ((k, v) :: rest) key = if k = key then some v else get? rest key := by
  by_cases h : k = key <;> simp [get?, h]

@[simp] theorem get?_insert_self (es : Entries α) (key : String) (value : α) :
    (es.insert key value).get? key = some value := by
  induction es with
  | nil => simp [insert, get?_cons]
  | cons e rest ih =>
    obtain ⟨k, v⟩ := e
    by_cases h : k = key
    · simp [insert, h, get?_cons]
    · simp [insert, h, get?_cons, ih]

theorem get?_insert_of_ne (es : Entries α) {key other : String} (value : α) (h : key ≠ other) :
    (es.insert key value).get? other = es.get? other := by
  induction es with
  | nil => simp [insert, get?_cons, h]
  | cons e rest ih =>
    obtain ⟨k, v⟩ := e
    by_cases hk : k = key
    · subst hk
      simp [insert, get?_cons, h]
    · simp [insert, hk, get?_cons, ih]

/-- A key is missing after a value is put in if it is another and was missing. -/
theorem get?_insert_eq_none_iff {es : Entries α} {key other : String} {value : α} :
    (es.insert key value).get? other = none ↔ key ≠ other ∧ es.get? other = none := by
  by_cases h : key = other
  · subst h
    simp
  · simp [get?_insert_of_ne es value h, h]

theorem get?_insertAll_eq_none_iff {es more : Entries α} {key : String} :
    (es.insertAll more).get? key = none ↔ es.get? key = none ∧ key ∉ more.keys := by
  induction more generalizing es with
  | nil => simp [insertAll, keys]
  | cons e rest ih =>
    obtain ⟨k, v⟩ := e
    have hstep : insertAll es ((k, v) :: rest) = insertAll (es.insert k v) rest := rfl
    rw [hstep, ih, get?_insert_eq_none_iff]
    simp only [keys, List.map_cons, List.mem_cons, not_or, ne_eq]
    constructor
    · rintro ⟨⟨hne, hnone⟩, hrest⟩
      exact ⟨hnone, fun heq => hne heq.symm, hrest⟩
    · rintro ⟨hnone, hne, hrest⟩
      exact ⟨⟨fun heq => hne heq.symm, hnone⟩, hrest⟩

theorem mem_of_get? {es : Entries α} {key : String} {value : α} (h : es.get? key = some value) :
    (key, value) ∈ es := by
  induction es with
  | nil => simp at h
  | cons e rest ih =>
    obtain ⟨k, v⟩ := e
    rw [get?_cons] at h
    split at h
    · next hk =>
      cases h
      subst hk
      exact List.mem_cons_self
    · exact List.mem_cons_of_mem _ (ih h)

/-- A key that occurs once has the value that stands beside it. -/
theorem get?_of_mem {es : Entries α} (hkeys : es.keys.Nodup) {key : String} {value : α}
    (h : (key, value) ∈ es) : es.get? key = some value := by
  induction es with
  | nil => simp at h
  | cons e rest ih =>
    obtain ⟨k, v⟩ := e
    obtain ⟨hnot, hrest⟩ := List.nodup_cons.mp hkeys
    rw [get?_cons]
    rcases List.mem_cons.mp h with heq | hmem
    · cases heq
      simp
    · have hkey : key ∈ rest.map Prod.fst := List.mem_map.mpr ⟨_, hmem, rfl⟩
      have hne : k ≠ key := fun heq => hnot (heq ▸ hkey)
      rw [if_neg hne]
      exact ih hrest hmem

theorem get?_eq_none_iff {es : Entries α} {key : String} :
    es.get? key = none ↔ key ∉ es.keys := by
  induction es with
  | nil => simp [keys]
  | cons e rest ih =>
    obtain ⟨k, v⟩ := e
    rw [get?_cons]
    by_cases h : k = key
    · simp [h, keys]
    · have hne : ¬key = k := fun heq => h heq.symm
      rw [if_neg h, ih]
      simp [keys, hne]

theorem has_eq_isSome (es : Entries α) (key : String) : es.has key = (es.get? key).isSome := by
  induction es with
  | nil => rfl
  | cons e rest ih =>
    obtain ⟨k, v⟩ := e
    rw [get?_cons]
    by_cases h : k = key
    · simp [has, h]
    · rw [if_neg h, ← ih]
      simp [has, h]

theorem has_iff {es : Entries α} {key : String} : es.has key = true ↔ key ∈ es.keys := by
  rw [has_eq_isSome, Option.isSome_iff_ne_none, ne_eq, get?_eq_none_iff, Decidable.not_not]

theorem erase_cons (k : String) (v : α) (rest : Entries α) (key : String) :
    erase ((k, v) :: rest) key = if k = key then rest.erase key else (k, v) :: rest.erase key := by
  by_cases h : k = key <;> simp [erase, h]

/-- Without a key there is nothing to find under it, and all other keys keep their values. -/
theorem get?_erase (es : Entries α) (key other : String) :
    (es.erase key).get? other = if key = other then none else es.get? other := by
  induction es with
  | nil => simp [erase]
  | cons e rest ih =>
    obtain ⟨k, v⟩ := e
    rw [erase_cons]
    by_cases hk : k = key
    · subst hk
      rw [if_pos rfl, ih, get?_cons]
      by_cases h : k = other <;> simp [h]
    · rw [if_neg hk, get?_cons, get?_cons, ih]
      by_cases h : k = other
      · subst h
        have hne : ¬key = k := fun heq => hk heq.symm
        simp [hne]
      · simp [h]

/-- A key that is there keeps its place; a new one comes last. -/
theorem keys_insert (es : Entries α) (key : String) (value : α) :
    (es.insert key value).keys = if key ∈ es.keys then es.keys else es.keys ++ [key] := by
  induction es with
  | nil => simp [insert, keys]
  | cons e rest ih =>
    obtain ⟨k, v⟩ := e
    by_cases hk : k = key
    · subst hk
      simp [insert, keys]
    · have hne : ¬key = k := fun e => hk e.symm
      simp only [keys] at ih
      by_cases hmem : key ∈ rest.map Prod.fst
      · simp [insert, hk, keys, ih, hmem]
      · simp [insert, hk, hne, keys, ih, hmem]

theorem nodup_keys_insert {es : Entries α} (h : es.keys.Nodup) (key : String) (value : α) :
    (es.insert key value).keys.Nodup := by
  rw [keys_insert]
  split
  · exact h
  · next hmem => exact List.nodup_append.mpr ⟨h, by simp, by rintro a ha b hb rfl; simp_all⟩

/-- What is put in counts before what was there. -/
theorem get?_insertAll {more : Entries α} (h : more.keys.Nodup) (es : Entries α) (key : String) :
    (es.insertAll more).get? key = (more.get? key).or (es.get? key) := by
  induction more generalizing es with
  | nil => rfl
  | cons e rest ih =>
    obtain ⟨k, v⟩ := e
    obtain ⟨hnot, hrest⟩ := List.nodup_cons.mp h
    have hstep : insertAll es ((k, v) :: rest) = insertAll (es.insert k v) rest := rfl
    rw [hstep, ih hrest, get?_cons]
    by_cases hk : k = key
    · subst hk
      rw [get?_eq_none_iff.mpr hnot, get?_insert_self, if_pos rfl]
      rfl
    · rw [get?_insert_of_ne es v hk, if_neg hk]

end Entries
end SchemaTypings
