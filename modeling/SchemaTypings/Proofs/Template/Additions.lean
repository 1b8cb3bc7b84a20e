/-
  SchemaTypings.Proofs.Template.Additions

  What an engine finds and answers after templates have been added, whatever library renders them.
  The text that was added last under a name is the one that counts, and an engine in memory finds
  under all other names what it found before.  An engine over a directory does not: its first
  addition takes all of its files away.
-/
import SchemaTypings.Template.Engine
import Mathlib.Data.List.Induction

namespace SchemaTypings.Template

/-- Whether a template is rendered in a context alike whatever is found under a name, as one is that
neither includes nor extends the template there. -/
def Library.Ignores (library : Library) (name : String) (self : Option String) (source : Source)
    (context : Context) : Prop :=
  ∀ a b : Environment, a.filter? = b.filter? →
    (∀ other, other ≠ name → a.source? other = b.source? other) →
    library a self source context = library b self source context

namespace Engine

/-! ## Answers -/

/-- Whether an engine has its templates in memory. -/
def isInMemory : Engine → Bool
  | .directory _ => false
  | .memory _ => true

/-- Whether two engines list alike and find the same under a name. -/
def AgreeOn (name : String) (a b : Engine) : Prop :=
  a.has name = b.has name ∧ a.source? name = b.source? name

/-- Whether a text is the template under a name. -/
def Serves (library : Library) (engine : Engine) (name text : String) : Prop :=
  engine.has name = true ∧ engine.source? name = some (.text text) ∧
    ∀ context, engine.render library name context =
      library engine.environment (some name) (.text text) context

/-- Whether there is no template under a name. -/
def Lacks (library : Library) (engine : Engine) (name : String) : Prop :=
  engine.has name = false ∧ engine.source? name = none ∧
    ∀ context, engine.render library name context = .error (.missingTemplate name)

variable {library : Library} {engine : Engine} {name other text : String}

theorem render_of_source? {source : Source} (h : engine.source? name = some source)
    (context : Context) : engine.render library name context =
      library engine.environment (some name) source context := by
  rw [render, h]

theorem serves_of_source? (hhas : engine.has name = true)
    (h : engine.source? name = some (.text text)) : engine.Serves library name text :=
  ⟨hhas, h, render_of_source? h⟩

theorem AgreeOn.serves {a b : Engine} (h : AgreeOn name a b) (hb : b.Serves library name text) :
    a.Serves library name text :=
  serves_of_source? (h.1.trans hb.1) (h.2.trans hb.2.1)

/-- Where all names but one are agreed on, so are the texts of the templates that ignore that one. -/
theorem render_eq_of_agreeOn {a b : Engine} (h : ∀ other, other ≠ name → AgreeOn other a b)
    (hne : other ≠ name) {context : Context}
    (hignores : ∀ source, b.source? other = some source →
      library.Ignores name (some other) source context) :
    a.render library other context = b.render library other context := by
  rw [render, render, (h other hne).2]
  cases hsource : b.source? other with
  | none => rfl
  | some source => exact hignores source hsource _ _ rfl fun o ho => (h o ho).2

/-! ## One addition -/

theorem isInMemory_add (engine : Engine) (name text : String) :
    (engine.add name text).isInMemory = true := by
  cases engine <;> rfl

theorem serves_add (engine : Engine) (name text : String) :
    (engine.add name text).Serves library name text := by
  have hget : ∃ templates, engine.add name text = .memory templates ∧
      templates.get? name = some text := by
    cases engine with
    | directory files => exact ⟨_, rfl, by simp [Entries.get?_cons]⟩
    | memory templates => exact ⟨_, rfl, Entries.get?_insert_self templates name text⟩
  obtain ⟨templates, hadd, hget⟩ := hget
  rw [hadd]
  refine serves_of_source? ?_ ?_
  · rw [has, Entries.has_eq_isSome, hget]
    rfl
  · rw [source?, hget]
    rfl

/-- In memory no other name is touched. -/
theorem agreeOn_add (h : engine.isInMemory = true) (text : String) (hne : other ≠ name) :
    AgreeOn other (engine.add name text) engine := by
  cases engine with
  | directory files => cases h
  | memory templates =>
    have hget := Entries.get?_insert_of_ne templates text hne.symm
    constructor
    · rw [add, has, has, Entries.has_eq_isSome, Entries.has_eq_isSome, hget]
    · rw [add, source?, source?, hget]

/-- The files of a directory are not taken over. -/
theorem lacks_add (h : engine.isInMemory = false) (hne : other ≠ name) (text : String) :
    (engine.add name text).Lacks library other := by
  cases engine with
  | memory templates => cases h
  | directory files =>
    have hget : Entries.get? [(name, text)] other = none := by
      rw [Entries.get?_cons, if_neg hne.symm]
      rfl
    have hsource : (Engine.memory [(name, text)]).source? other = none := by
      rw [source?, hget]
      rfl
    refine ⟨?_, hsource, fun context => ?_⟩
    · rw [add, has, Entries.has_eq_isSome, hget]
      rfl
    · rw [add, render, hsource]

/-! ## Additions one after the other -/

/-- The engine with templates added one after the other. -/
def addAll (engine : Engine) (added : Entries String) : Engine :=
  added.foldl (fun engine e => engine.add e.1 e.2) engine

/-- The text that was added last under a name. -/
def lastText? (added : Entries String) (name : String) : Option String :=
  Entries.get? added.reverse name

variable {added : Entries String}

theorem addAll_concat (engine : Engine) (added : Entries String) (name text : String) :
    engine.addAll (added ++ [(name, text)]) = (engine.addAll added).add name text := by
  rw [addAll, List.foldl_append]
  rfl

theorem lastText?_concat : lastText? (added ++ [(name, text)]) other =
    if name = other then some text else lastText? added other := by
  rw [lastText?, List.reverse_append, List.reverse_singleton, List.singleton_append,
    Entries.get?_cons]
  rfl

/-- Additions leave an engine in memory. -/
theorem isInMemory_addAll (h : engine.isInMemory = true ∨ added ≠ []) :
    (engine.addAll added).isInMemory = true := by
  rcases List.eq_nil_or_concat added with rfl | ⟨front, ⟨name, text⟩, rfl⟩
  · exact h.resolve_right fun hne => hne rfl
  · rw [List.concat_eq_append, addAll_concat]
    exact isInMemory_add _ _ _

/-- Later additions under other names do not touch a template that was added. -/
theorem serves_addAll (h : lastText? added name = some text) :
    (engine.addAll added).Serves library name text := by
  induction added using List.reverseRecOn with
  | nil => cases h
  | append_singleton front last ih =>
    obtain ⟨latest, content⟩ := last
    rw [lastText?_concat] at h
    rw [addAll_concat]
    split at h
    · next heq =>
      cases h
      exact heq ▸ serves_add _ _ _
    · next hne =>
      have hfront : front ≠ [] := by
        rintro rfl
        cases h
      exact (agreeOn_add (isInMemory_addAll (.inr hfront)) content (Ne.symm hne)).serves (ih h)

/-- Whatever library renders the templates, one that is added counts from then on, until another is
added under its name.  An addition changes nothing of what is found under other names, in memory and
over a directory alike, nor the text of any template that ignores the name, unless it is the first
to an engine over a directory: that one takes away every file. -/
theorem answers_after_additions (library : Library) (engine : Engine) (added : Entries String) :
    (∀ name text, lastText? added name = some text →
      (engine.addAll added).Serves library name text) ∧
    (∀ name text, engine.isInMemory = true ∨ added ≠ [] → ∀ other, other ≠ name →
      AgreeOn other ((engine.addAll added).add name text) (engine.addAll added) ∧
      ∀ context, (∀ source, (engine.addAll added).source? other = some source →
          library.Ignores name (some other) source context) →
        ((engine.addAll added).add name text).render library other context =
          (engine.addAll added).render library other context) ∧
    ∀ name text other, other ≠ name → engine.isInMemory = false →
      (engine.add name text).Lacks library other := by
  refine ⟨fun _ _ h => serves_addAll h, fun name text h other hne => ?_,
    fun _ text _ hne h => lacks_add h hne text⟩
  have hagree {o : String} (ho : o ≠ name) :
      AgreeOn o ((engine.addAll added).add name text) (engine.addAll added) :=
    agreeOn_add (isInMemory_addAll h) text ho
  exact ⟨hagree hne, fun _ => render_eq_of_agreeOn (fun _ => hagree) hne⟩

/-- A library that renders the pages, and of the texts those that say nothing to it. -/
def plainly : Library := fun _ _ source context =>
  match source with
  | .page template => template.render context
  | .text content =>
    if content.toList.any fun c => c == '\x7b' || c == '\n' then .error (.failed "no plain text")
    else .ok content

/-- Two texts under one name, and another between them. -/
def greetings : Entries String := [("hello", "Hello"), ("bye", "Bye"), ("hello", "Hi")]

theorem answers_after_additions_greetings :
    (shipped.addAll greetings).render plainly "hello" [] = .ok "Hi" ∧
      ((shipped.addAll greetings).add "hello" "Hey").render plainly "bye" [] = .ok "Bye" ∧
      (shipped.add "hello" "Hey").has "secrets.ts.j2" = false := by
  obtain ⟨hserves, hagree, hlacks⟩ := answers_after_additions plainly shipped greetings
  refine ⟨?_, ?_, (hlacks _ "Hey" _ (by decide) rfl).1⟩
  · rw [(hserves "hello" "Hi" rfl).2.2]
    rfl
  · have hignores : ∀ source, plainly.Ignores "hello" (some "bye") source [] := by
      rintro source a b - -
      rfl
    rw [(hagree "hello" "Hey" (.inr (by decide)) "bye" (by decide)).2 [] fun source _ =>
      hignores source, (hserves "bye" "Bye" rfl).2.2]
    rfl

/-- The page templates go when a template is added to the engine that serves them. -/
theorem not_agreeOn_add_shipped :
    ¬AgreeOn "secrets.ts.j2" (shipped.add "hello" "Hi") shipped := by
  rintro ⟨hhas, -⟩
  exact absurd hhas (by decide)

end Engine
end SchemaTypings.Template
