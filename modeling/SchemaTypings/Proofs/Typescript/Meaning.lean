/-
  SchemaTypings.Proofs.Typescript.Meaning

  What expressions and declared types stand for beside given declarations, and how the meaning of a
  whole follows from that of its parts.
-/
import SchemaTypings.Proofs.Schema.Subnode
import SchemaTypings.Proofs.Typescript.Environment

namespace SchemaTypings.Typescript

/-- Whether the environment has the declarations. -/
def Covers (env : Environment) (ds : List Declaration) : Prop :=
  ∀ d ∈ ds, env.get? d.name = some d.body.read

theorem Covers.of_sublist {env : Environment} {ds ds' : List Declaration} (h : Covers env ds')
    (hsub : ds.Sublist ds') : Covers env ds :=
  fun d hd => h d (hsub.subset hd)

/-! ## What expressions stand for -/

/-- An expression that can be read, uses declared names only, and stands for the type. -/
structure Denotes (ds : List Declaration) (t : TypeExpr) (shape : Shape) : Prop where
  isReadable : t.IsReadable
  declared : ∀ name ∈ t.names, name ∈ ds.map Declaration.name
  exists_unfold : ∀ env steps, Covers env ds → ds.length ≤ steps →
    ∃ s, t.unfold (env.unfoldName steps) = some s ∧ Shape.Same s shape

/-- A declared type whose expressions can be read and use declared names only, and that stands for
the type. -/
structure DenotesBody (ds : List Declaration) (body : DeclarationBody) (shape : Shape) : Prop where
  isReadable : ∀ t ∈ body.types, t.IsReadable
  declared : ∀ t ∈ body.types, ∀ name ∈ t.names, name ∈ ds.map Declaration.name
  exists_unfold : ∀ env steps, Covers env ds → ds.length ≤ steps →
    ∃ s, body.read.unfold (env.unfoldName steps) = some s ∧ Shape.Same s shape

/-- A property of the same name, optional or not, whose expression stands for the type of the
field. -/
structure DenotesField (ds : List Declaration) (p : Property) (field : Member SchemaNode) :
    Prop where
  name : p.name = field.name
  optional : p.optional = field.optional
  type : Denotes ds p.type (shapeWith fieldNameAsRead field.type)

section
variable {ds ds' : List Declaration} {t : TypeExpr} {shape : Shape}

theorem Denotes.of_sublist (h : Denotes ds t shape) (hsub : ds.Sublist ds') :
    Denotes ds' t shape where
  isReadable := h.isReadable
  declared name hname := (hsub.map Declaration.name).subset (h.declared name hname)
  exists_unfold env steps hcovers hsteps :=
    h.exists_unfold env steps (hcovers.of_sublist hsub) (Nat.le_trans hsub.length_le hsteps)

theorem DenotesField.of_sublist {p : Property} {field : Member SchemaNode}
    (h : DenotesField ds p field) (hsub : ds.Sublist ds') : DenotesField ds' p field :=
  ⟨h.name, h.optional, h.type.of_sublist hsub⟩

/-- An expression without names stands for one variant. -/
theorem denotes_singleton {v : Variant} (hreadable : t.IsReadable) (hnames : t.names = [])
    (hunfold : ∀ look, t.unfold look = some [v]) : Denotes ds t [v] where
  isReadable := hreadable
  declared := by simp [hnames]
  exists_unfold _ _ _ _ := ⟨[v], hunfold _, Shape.same_singleton v.same_refl⟩

theorem Denotes.array (h : Denotes ds t shape) : Denotes ds (.array t) [.array shape] where
  isReadable := h.isReadable
  declared := h.declared
  exists_unfold env steps hcovers hsteps := by
    obtain ⟨s, hs, hsame⟩ := h.exists_unfold env steps hcovers hsteps
    refine ⟨[.array s], ?_, Shape.same_singleton (Variant.same_array_iff.mpr hsame)⟩
    rw [TypeExpr.unfold, hs, Option.map_some]

theorem Denotes.record (h : Denotes ds t shape) : Denotes ds (.record t) [.record shape] where
  isReadable := h.isReadable
  declared := h.declared
  exists_unfold env steps hcovers hsteps := by
    obtain ⟨s, hs, hsame⟩ := h.exists_unfold env steps hcovers hsteps
    refine ⟨[.record s], ?_, Shape.same_singleton (Variant.same_record_iff.mpr hsame)⟩
    rw [TypeExpr.unfold, hs, Option.map_some]

theorem Denotes.alias (h : Denotes ds t shape) : DenotesBody ds (.alias t) shape where
  isReadable := by simpa [DeclarationBody.types] using h.isReadable
  declared := by simpa [DeclarationBody.types] using h.declared
  exists_unfold env steps hcovers hsteps := by
    obtain ⟨s, hs, hsame⟩ := h.exists_unfold env steps hcovers hsteps
    refine ⟨s, ?_, hsame⟩
    rw [DeclarationBody.read, TypeBody.unfold, TypeExpr.unfold_flat, hs]

theorem mem_memberShapes_of_nullableMember? {members : List SchemaNode} {only : SchemaNode}
    (h : nullableMember? members = some only) (r : String → String) (v : Variant) :
    v ∈ memberShapes r members ↔ v ∈ shapeWith r only ++ [.null] := by
  obtain ⟨⟨null, hmember, hnull⟩, hfilter⟩ := nullableMember?_eq_some_iff.mp h
  have hother : ∀ m, m ∈ members ∧ m.isNull = false ↔ m = only := by
    intro m
    have hmem : m ∈ members.filter (!·.isNull) ↔ m = only := by
      rw [hfilter, List.mem_singleton]
    simpa using hmem
  have hshape : ∀ m : SchemaNode, m.isNull = true → shapeWith r m = [.null] := by
    intro m hm
    cases m with
    | null note => rw [shapeWith]
    | _ => cases hm
  rw [memberShapes_eq_flatMap, List.mem_flatMap, List.mem_append, List.mem_singleton]
  constructor
  · rintro ⟨m, hm, hv⟩
    by_cases hnull : m.isNull = true
    · rw [hshape m hnull, List.mem_singleton] at hv
      exact .inr hv
    · rw [(hother m).mp ⟨hm, by simpa using hnull⟩] at hv
      exact .inl hv
  · rintro (hv | rfl)
    · exact ⟨only, ((hother only).mpr rfl).1, hv⟩
    · exact ⟨null, hmember, by rw [hshape null hnull]; exact List.mem_singleton_self _⟩

/-- The expression of the other member stands for a union with null when null is added. -/
theorem Denotes.nullable {members : List SchemaNode} {only : SchemaNode} {r : String → String}
    (honly : nullableMember? members = some only) (h : Denotes ds t (shapeWith r only)) :
    Denotes ds (.union [t, .null]) (memberShapes r members) where
  isReadable := ⟨by simp, h.isReadable, trivial, trivial⟩
  declared := by simpa [TypeExpr.names, TypeExpr.namesOfAll] using h.declared
  exists_unfold env steps hcovers hsteps := by
    obtain ⟨s, hs, hsame⟩ := h.exists_unfold env steps hcovers hsteps
    refine ⟨s ++ [.null], ?_, ?_⟩
    · rw [TypeExpr.unfold, TypeExpr.unfoldAll, hs]
      rfl
    · refine (hsame.append (Shape.same_singleton (Variant.same_refl .null))).congr (fun v => Iff.rfl) ?_
      exact mem_memberShapes_of_nullableMember? honly r

end

/-! ## Unions -/

namespace TypeExpr

variable {look : String → Option Shape} {ts : List TypeExpr}

theorem exists_unfoldAll (h : ∀ t ∈ ts, ∃ s, t.unfold look = some s) :
    ∃ s, unfoldAll look ts = some s := by
  induction ts with
  | nil => exact ⟨[], rfl⟩
  | cons t rest ih =>
    rw [List.forall_mem_cons] at h
    obtain ⟨s, hs⟩ := h.1
    obtain ⟨s', hs'⟩ := ih h.2
    exact ⟨s ++ s', by rw [unfoldAll, hs, hs']; rfl⟩

/-- The variants of a union are those of its members. -/
theorem mem_of_unfoldAll {s : Shape} (h : unfoldAll look ts = some s) (v : Variant) :
    v ∈ s ↔ ∃ t ∈ ts, ∃ u, t.unfold look = some u ∧ v ∈ u := by
  induction ts generalizing s with
  | nil =>
    cases h
    simp
  | cons t rest ih =>
    rw [unfoldAll] at h
    cases ht : t.unfold look with
    | none => rw [ht] at h; cases h
    | some u =>
      rw [ht] at h
      obtain ⟨more, hmore, rfl⟩ := Option.map_eq_some_iff.mp h
      rw [List.mem_append, ih hmore, List.exists_mem_cons_iff]
      simp [ht]

/-- Each text is kept once, and nothing is added. -/
theorem dedupe_spec (ts : List TypeExpr) :
    (∀ t ∈ dedupe ts, t ∈ ts) ∧ ∀ t ∈ ts, ∃ u ∈ dedupe ts, u.chars = t.chars := by
  -- What has been kept stays, whatever comes after.
  have hstep : ∀ kept : List TypeExpr,
      let result := ts.foldl (fun kept t => if kept.any (·.chars = t.chars) then kept
        else kept ++ [t]) kept
      (∀ t ∈ result, t ∈ kept ∨ t ∈ ts) ∧ (∀ t ∈ kept, t ∈ result) ∧
        ∀ t ∈ ts, ∃ u ∈ result, u.chars = t.chars := by
    induction ts with
    | nil => simp
    | cons t rest ih =>
      intro kept
      simp only [List.foldl_cons, List.mem_cons]
      split
      · next hany =>
        obtain ⟨hsub, hkept, hall⟩ := ih kept
        obtain ⟨u, hu, hchars⟩ := List.any_eq_true.mp hany
        refine ⟨fun x hx => (hsub x hx).imp_right .inr, hkept, ?_⟩
        rintro x (rfl | hx)
        · exact ⟨u, hkept u hu, of_decide_eq_true hchars⟩
        · exact hall x hx
      · obtain ⟨hsub, hkept, hall⟩ := ih (kept ++ [t])
        refine ⟨fun x hx => ?_, fun x hx => hkept x (List.mem_append_left _ hx), ?_⟩
        · rcases hsub x hx with hx | hx
          · rcases List.mem_append.mp hx with hx | hx
            · exact .inl hx
            · exact .inr (.inl (List.mem_singleton.mp hx))
          · exact .inr (.inr hx)
        · rintro x (rfl | hx)
          · exact ⟨x, hkept x (by simp), rfl⟩
          · exact hall x hx
  obtain ⟨hsub, -, hall⟩ := hstep []
  exact ⟨fun t ht => (hsub t ht).resolve_left List.not_mem_nil, hall⟩

/-- Members with one text have one type, so that it is enough to keep the first of them. -/
theorem exists_unfoldAll_dedupe {s : Shape} (hts : ∀ t ∈ ts, t.IsReadable)
    (h : unfoldAll look ts = some s) (hall : ∀ t ∈ ts, ∃ u, t.unfold look = some u) :
    ∃ s', unfoldAll look (dedupe ts) = some s' ∧ ∀ v, v ∈ s' ↔ v ∈ s := by
  obtain ⟨hsub, hkept⟩ := dedupe_spec ts
  have hkeptAll : ∀ t ∈ dedupe ts, ∃ u, t.unfold look = some u := fun t ht => hall t (hsub t ht)
  obtain ⟨s', hs'⟩ := exists_unfoldAll hkeptAll
  refine ⟨s', hs', fun v => ?_⟩
  rw [mem_of_unfoldAll h, mem_of_unfoldAll hs']
  constructor
  · rintro ⟨t, ht, hv⟩
    exact ⟨t, hsub t ht, hv⟩
  · rintro ⟨t, ht, hv⟩
    obtain ⟨u, hu, hchars⟩ := hkept t ht
    have hflat := flat_eq_of_chars_eq (hts u (hsub u hu)) (hts t ht) hchars
    refine ⟨u, hu, ?_⟩
    rw [← unfold_flat look u, hflat, unfold_flat]
    exact hv

end TypeExpr

section
variable {ds : List Declaration} {r : String → String}

theorem exists_unfoldAll_of_forall₂ {ts : List TypeExpr} {members : List SchemaNode}
    (h : List.Forall₂ (fun t node => Denotes ds t (shapeWith r node)) ts members)
    {env : Environment} {steps : Nat} (hcovers : Covers env ds) (hsteps : ds.length ≤ steps) :
    ∃ s, TypeExpr.unfoldAll (env.unfoldName steps) ts = some s ∧
      Shape.Same s (memberShapes r members) := by
  induction h with
  | nil => exact ⟨[], rfl, by simp [Shape.Same, memberShapes]⟩
  | cons ht _ ih =>
    obtain ⟨s, hs, hsame⟩ := ht.exists_unfold env steps hcovers hsteps
    obtain ⟨s', hs', hsame'⟩ := ih
    refine ⟨s ++ s', by rw [TypeExpr.unfoldAll, hs, hs']; rfl, ?_⟩
    rw [memberShapes]
    exact hsame.append hsame'

/-- Expressions that stand for the members make a union that stands for the union of them. -/
theorem Denotes.union {ts : List TypeExpr} {members : List SchemaNode} (hmembers : members ≠ [])
    (h : List.Forall₂ (fun t node => Denotes ds t (shapeWith r node)) ts members) :
    Denotes ds (.union (TypeExpr.dedupe ts)) (memberShapes r members) := by
  obtain ⟨hsub, hkept⟩ := TypeExpr.dedupe_spec ts
  have hall : ∀ t ∈ ts, ∃ node, Denotes ds t (shapeWith r node) := by
    intro t ht
    obtain ⟨node, -, hnode⟩ := exists_right_of_forall₂ h ht
    exact ⟨node, hnode⟩
  -- what is left out of the union has the text of an expression that stays, and so its meaning
  refine ⟨⟨?_, ?_⟩, ?_, ?_⟩
  · cases h with
    | nil => exact absurd rfl hmembers
    | cons _ _ =>
      obtain ⟨u, hu, -⟩ := hkept _ List.mem_cons_self
      exact List.ne_nil_of_mem hu
  · rw [TypeExpr.allReadable_iff]
    intro t ht
    obtain ⟨_, hnode⟩ := hall t (hsub t ht)
    exact hnode.isReadable
  · intro name hname
    rw [TypeExpr.names, TypeExpr.mem_namesOfAll] at hname
    obtain ⟨t, ht, hname⟩ := hname
    obtain ⟨_, hnode⟩ := hall t (hsub t ht)
    exact hnode.declared name hname
  · intro env steps hcovers hsteps
    obtain ⟨s, hs, hsame⟩ := exists_unfoldAll_of_forall₂ h hcovers hsteps
    obtain ⟨s', hs', hmem⟩ := TypeExpr.exists_unfoldAll_dedupe
      (fun t ht => (hall t ht).elim fun _ hnode => hnode.isReadable) hs fun t ht => by
        obtain ⟨_, hnode⟩ := hall t ht
        obtain ⟨u, hu, -⟩ := hnode.exists_unfold env steps hcovers hsteps
        exact ⟨u, hu⟩
    exact ⟨s', by rw [TypeExpr.unfold, hs'], hsame.congr hmem fun _ => Iff.rfl⟩

/-! ## Objects -/

theorem exists_unfoldFields_of_forall₂ {properties : List Property}
    {fields : List (Member SchemaNode)} (h : List.Forall₂ (DenotesField ds) properties fields)
    {env : Environment} {steps : Nat} (hcovers : Covers env ds) (hsteps : ds.length ≤ steps) :
    ∃ fs, unfoldFields (env.unfoldName steps) (properties.map Property.read) = some fs ∧
      List.Forall₂ Variant.SameField fs (fieldShapes fieldNameAsRead fields) := by
  induction h with
  | nil => exact ⟨[], rfl, .nil⟩
  | @cons p field _ _ hp _ ih =>
    obtain ⟨s, hs, hsame⟩ := hp.type.exists_unfold env steps hcovers hsteps
    obtain ⟨fs, hfs, hfields⟩ := ih
    refine ⟨⟨fieldNameAsRead p.name, p.optional, s⟩ :: fs, ?_, .cons ?_ hfields⟩
    · rw [List.map_cons, Property.read, unfoldFields, TypeExpr.unfold_flat, hs]
      simp only
      rw [hfs]
      rfl
    · obtain ⟨name, optional, type⟩ := field
      exact Variant.sameField_iff.mpr ⟨by rw [hp.name]; rfl, hp.optional, hsame⟩

/-- Properties that stand for the fields make an interface that stands for the object type. -/
theorem denotesBody_interface {properties : List Property} {fields : List (Member SchemaNode)}
    (isOpen : Bool) (h : List.Forall₂ (DenotesField ds) properties fields) :
    DenotesBody ds (.interface properties isOpen)
      [.object (fieldShapes fieldNameAsRead fields) isOpen] := by
  have hall : ∀ t ∈ DeclarationBody.types (.interface properties isOpen),
      ∃ shape, Denotes ds t shape := by
    intro t ht
    obtain ⟨p, hp, rfl⟩ := List.mem_map.mp ht
    obtain ⟨_, -, hfield⟩ := exists_right_of_forall₂ h hp
    exact ⟨_, hfield.type⟩
  refine ⟨fun t ht => (hall t ht).elim fun _ h => h.isReadable,
    fun t ht => (hall t ht).elim fun _ h => h.declared, ?_⟩
  intro env steps hcovers hsteps
  obtain ⟨fs, hfs, hfields⟩ := exists_unfoldFields_of_forall₂ h hcovers hsteps
  refine ⟨[.object fs isOpen], ?_, Shape.same_singleton ?_⟩
  · rw [DeclarationBody.read, TypeBody.unfold, hfs, Option.map_some]
  · exact Variant.same_object_iff.mpr ⟨rfl, hfields⟩

end

end SchemaTypings.Typescript
