/-
  SchemaTypings.Proofs.Definition.RoundTrip

  Definitions written back as the JSON values that they are loaded from.  What a part is read from
  depends only on the values of its keys, so that each part reads back on its own and at any
  location, and a section reads back entry by entry.  Loading what is written gives the definition
  again wherever its name, version and id are texts that can be required; what is loaded has such
  texts, so that loading, writing and loading again settles.
-/
import SchemaTypings.Definition.Load
import SchemaTypings.Fault

namespace SchemaTypings

/-! ## Written definitions -/

/-- The entries of a section as an object, each an object with its own keys. -/
def Entries.toJson {α : Type} (fields : α → Entries Json) (es : Entries α) : Json :=
  .obj (es.map fun (name, part) => (name, .obj (fields part)))

/-- A schema in an object of its own. -/
def schemaJson (schema : SchemaObject) : Json := .obj [("schema", .obj schema)]

/-- The keys of a caption, and of a tag; what is missing has none. -/
def Caption.fields (c : Caption) : Entries Json :=
  (c.title?.map fun title => ("title", Json.str title)).toList ++
    (c.description?.map fun description => ("description", Json.str description)).toList

/-- The keys of an event. -/
def EventDefinition.fields (event : EventDefinition) : Entries Json :=
  [("schema", .obj event.schema)] ++ event.caption.fields

/-- The keys of a state; one that does not expire has no expiry. -/
def StateDefinition.fields (state : StateDefinition) : Entries Json :=
  [("type", .str state.scope.name), ("schema", .obj state.schema)] ++
    (state.expiry?.map fun expiry => ("expiry", Json.int expiry)).toList ++ state.caption.fields

/-- The keys of an action. -/
def ActionDefinition.fields (action : ActionDefinition) : Entries Json :=
  [("input", schemaJson action.input), ("output", schemaJson action.output)] ++
    action.caption.fields

/-- The keys of a message. -/
def MessageDefinition.fields (message : MessageDefinition) : Entries Json :=
  [("schema", .obj message.schema)] ++ message.caption.fields

/-- The keys of a channel; the tags of conversations and messages stand in objects of their own. -/
def ChannelDefinition.fields (channel : ChannelDefinition) : Entries Json :=
  [("messages", channel.messages.toJson MessageDefinition.fields),
    ("tags", channel.tags.toJson Caption.fields),
    ("conversation", .obj [("tags", channel.conversationTags.toJson Caption.fields)]),
    ("message", .obj [("tags", channel.messageTags.toJson Caption.fields)])]

/-- The keys that every kind of definition has. -/
def BotDefinition.fields (bot : BotDefinition) : Entries Json :=
  [("configuration", schemaJson bot.configuration),
    ("events", bot.events.toJson EventDefinition.fields),
    ("states", bot.states.toJson StateDefinition.fields)]

/-- The keys that every integration has. -/
def IntegrationInterface.fields (interface : IntegrationInterface) : Entries Json :=
  [("name", .str interface.name), ("version", .str interface.version)] ++
    interface.toBotDefinition.fields ++
    [("actions", interface.actions.toJson ActionDefinition.fields),
      ("channels", interface.channels.toJson ChannelDefinition.fields)]

/-- Whether the texts that an integration has to have are there. -/
def IntegrationInterface.IsNamed (interface : IntegrationInterface) : Prop :=
  interface.name ≠ "" ∧ interface.version ≠ ""

namespace Definition

/-- The keys of a definition besides its kind. -/
def fields : Definition → Entries Json
  | .bot b => b.fields
  | .integration i => i.toIntegrationInterface.fields ++ [("secrets", .arr (i.secrets.map .str))]
  | .instance i => ("id", .str i.id) :: i.toIntegrationInterface.fields

/-- A definition as the JSON value that it is loaded from. -/
def toJson (definition : Definition) : Json :=
  .obj (("kind", .str definition.kindName) :: definition.fields)

variable {data pre : Entries Json} {key location : String} {c : Caption}

/-! ## Fields -/

/-- Behind other keys, the keys of a caption answer to nothing but a title and a description. -/
theorem field_append_fields (htitle : key ≠ "title") (hdescription : key ≠ "description") :
    (pre ++ c.fields).field key = pre.field key := by
  have hnone : ∀ e ∈ c.fields, e.1 ≠ key := by
    intro e he
    simp only [Caption.fields, List.mem_append, Option.mem_toList, Option.map_eq_some_iff] at he
    rcases he with ⟨title, -, rfl⟩ | ⟨description, -, rfl⟩
    · exact htitle.symm
    · exact hdescription.symm
  have hfind : c.fields.find? (fun e => e.1 = key) = none :=
    List.find?_eq_none.mpr fun e he => by simpa using hnone e he
  rw [Entries.field, Entries.get?, List.find?_append, hfind, Option.or_none]
  rfl

/-- A caption reads back behind keys that are not its own. -/
theorem captionOf_append (htitle : pre.has "title" = false)
    (hdescription : pre.has "description" = false) :
    captionOf (pre ++ c.fields) location = .ok c := by
  -- Keys in front hide those of the caption only where they are the same.
  have hmiss : ∀ {key : String}, pre.has key = false →
      (pre ++ c.fields).field key = c.fields.field key := by
    intro key hkey
    have hfind : pre.find? (fun e => e.1 = key) = none :=
      List.find?_eq_none.mpr (List.any_eq_false.mp hkey)
    rw [Entries.field, Entries.get?, List.find?_append, hfind, Option.none_or]
    rfl
  rw [captionOf, optionalText, optionalText, hmiss htitle, hmiss hdescription]
  obtain ⟨title?, description?⟩ := c
  cases title? <;> cases description? <;> rfl

/-- A schema reads back from its key. -/
theorem schemaField_eq_ok {schema : SchemaObject} (h : data.field key = .obj schema) :
    schemaField data key location = .ok schema := by
  rw [schemaField, h]

/-- A schema reads back from an object of its own. -/
theorem nestedSchema_eq_ok {schema : SchemaObject} (h : data.field key = schemaJson schema) :
    nestedSchema data key location = .ok schema := by
  rw [nestedSchema, h]
  rfl

/-- A text that has to be there is one with characters. -/
theorem requiredText_eq_ok_iff {s : String} :
    requiredText data key = .ok s ↔ data.field key = .str s ∧ s ≠ "" := by
  rw [requiredText]
  split
  · next text htext =>
    rw [htext]
    split
    · next hempty =>
      constructor
      · intro h
        cases h
      · rintro ⟨heq, hne⟩
        cases heq
        exact absurd hempty hne
    · next hne =>
      constructor
      · intro h
        cases h
        exact ⟨rfl, hne⟩
      · rintro ⟨heq, -⟩
        cases heq
        rfl
  · next hother =>
    constructor
    · intro h
      cases h
    · rintro ⟨htext, -⟩
      exact absurd htext (hother s)

/-! ## Sections -/

/-- Entries read back where each does, wherever it stands. -/
theorem readEach_map {α : Type} (read : Json → String → Loaded α) (write : α → Json)
    (hread : ∀ part location, read (write part) location = .ok part) (location : String)
    (es : Entries α) :
    readEach read location (es.map fun (name, part) => (name, write part)) = .ok es := by
  induction es with
  | nil => rfl
  | cons e rest ih =>
    obtain ⟨name, part⟩ := e
    rw [List.map_cons, readEach, hread, ih]
    rfl

/-- A section reads back where each of its entries does. -/
theorem sectionEntries_eq_ok {α : Type} {read : Entries Json → String → Loaded α}
    {fields : α → Entries Json} (hread : ∀ part location, read (fields part) location = .ok part)
    {es : Entries α} (h : data.field key = es.toJson fields) :
    sectionEntries data key read = .ok es := by
  rw [sectionEntries, h]
  exact readEach_map (fun entry at' => do read (← objectAt entry at') at')
    (fun part => .obj (fields part)) hread key es

/-- An object that may be missing is itself where it is there, also with no entry. -/
theorem objectOrEmptyAt_obj (es : Entries Json) : objectOrEmptyAt (.obj es) location = .ok es := by
  cases es <;> rfl

/-- Tags read back. -/
theorem readTags_toJson (tags : Entries Caption) :
    readTags (tags.toJson Caption.fields) location = .ok tags := by
  have htag : ∀ (tag : Caption) at', readTag (.obj tag.fields) at' = .ok tag := by
    intro tag at'
    have hcaption : captionOf ([] ++ tag.fields) at' = .ok tag := captionOf_append rfl rfl
    exact bind_eq_ok (objectOrEmptyAt_obj _) hcaption
  exact bind_eq_ok (objectOrEmptyAt_obj _) (readEach_map readTag _ htag location tags)

/-- Tags read back from an object of their own. -/
theorem nestedTags_eq_ok {tags : Entries Caption}
    (h : data.field key = .obj [("tags", tags.toJson Caption.fields)]) :
    nestedTags data key location = .ok tags := by
  rw [nestedTags, h]
  exact bind_eq_ok (objectOrEmptyAt_obj _) (readTags_toJson tags)

/-! ## Parts -/

theorem readEvent_fields (event : EventDefinition) :
    readEvent event.fields location = .ok event := by
  rw [readEvent, schemaField_eq_ok (field_append_fields (by decide) (by decide)),
    EventDefinition.fields, captionOf_append rfl rfl]
  rfl

theorem readMessage_fields (message : MessageDefinition) :
    readMessage message.fields location = .ok message := by
  rw [readMessage, schemaField_eq_ok (field_append_fields (by decide) (by decide)),
    MessageDefinition.fields, captionOf_append rfl rfl]
  rfl

theorem readAction_fields (action : ActionDefinition) :
    readAction action.fields location = .ok action := by
  rw [readAction, nestedSchema_eq_ok (field_append_fields (by decide) (by decide)),
    nestedSchema_eq_ok (field_append_fields (by decide) (by decide)), ActionDefinition.fields,
    captionOf_append rfl rfl]
  rfl

theorem readState_fields (state : StateDefinition) :
    readState state.fields location = .ok state := by
  obtain ⟨schema, scope, expiry?, caption⟩ := state
  have hscope : readScope (StateDefinition.fields ⟨schema, scope, expiry?, caption⟩) location =
      .ok scope := by
    cases scope <;> rfl
  have hexpiry : readExpiry (StateDefinition.fields ⟨schema, scope, expiry?, caption⟩) location =
      .ok expiry? := by
    -- Without an expiry the key is missing altogether, and reads like a null.
    rw [readExpiry, StateDefinition.fields, field_append_fields (by decide) (by decide)]
    cases expiry? with
    | none => rfl
    | some expiry =>
      have hsign : ¬(expiry : Int) < 0 := by omega
      show (if (expiry : Int) < 0 then _ else _) = _
      rw [if_neg hsign]
      rfl
  rw [readState, hscope, hexpiry, schemaField_eq_ok rfl, StateDefinition.fields,
    captionOf_append]
  · rfl
  · cases expiry? <;> rfl
  · cases expiry? <;> rfl

theorem readChannel_fields (channel : ChannelDefinition) :
    readChannel channel.fields location = .ok channel := by
  refine bind_eq_ok (objectOrEmptyAt_obj _) (bind_eq_ok (a := channel.messages) ?_ ?_)
  · exact readEach_map _ (fun message : MessageDefinition => .obj message.fields)
      (fun message _ => readMessage_fields message) _ channel.messages
  · exact bind_eq_ok (readTags_toJson channel.tags) (bind_eq_ok (nestedTags_eq_ok rfl)
      (bind_eq_ok (nestedTags_eq_ok rfl) rfl))

/-- The names of secrets read back, whatever the index of the first. -/
theorem readSecretNames_map (names : List String) (index : Nat) :
    readSecretNames index (names.map .str) = .ok names := by
  induction names generalizing index with
  | nil => rfl
  | cons name rest ih =>
    rw [List.map_cons, readSecretNames, ih]
    rfl

/-! ## Definitions -/

/-- What every kind of definition exposes reads back from its keys. -/
theorem readBase_eq_ok {bot : BotDefinition}
    (hconfiguration : data.field "configuration" = schemaJson bot.configuration)
    (hevents : data.field "events" = bot.events.toJson EventDefinition.fields)
    (hstates : data.field "states" = bot.states.toJson StateDefinition.fields) :
    readBase data = .ok bot := by
  have hread : readConfiguration data = .ok bot.configuration := by
    rw [readConfiguration, hconfiguration]
    rfl
  exact bind_eq_ok hread
    (bind_eq_ok (sectionEntries_eq_ok (fun event _ => readEvent_fields event) hevents)
      (bind_eq_ok (sectionEntries_eq_ok (fun state _ => readState_fields state) hstates) rfl))

/-- What holds of each key of an integration holds of seven. -/
theorem forall_mem_fields_iff {interface : IntegrationInterface} {p : String × Json → Prop} :
    (∀ e ∈ interface.fields, p e) ↔
      p ("name", .str interface.name) ∧ p ("version", .str interface.version) ∧
        p ("configuration", schemaJson interface.configuration) ∧
        p ("events", interface.events.toJson EventDefinition.fields) ∧
        p ("states", interface.states.toJson StateDefinition.fields) ∧
        p ("actions", interface.actions.toJson ActionDefinition.fields) ∧
        p ("channels", interface.channels.toJson ChannelDefinition.fields) := by
  simp [IntegrationInterface.fields, BotDefinition.fields]

/-- What an integration exposes reads back from an object that has its keys, whatever else that
holds. -/
theorem readInterface_eq_ok {interface : IntegrationInterface} (hnamed : interface.IsNamed)
    (h : ∀ e ∈ interface.fields, data.field e.1 = e.2) :
    readInterface data = .ok interface := by
  obtain ⟨hname, hversion, hconfiguration, hevents, hstates, hactions, hchannels⟩ :=
    forall_mem_fields_iff.mp h
  obtain ⟨hnonempty, hversioned⟩ := hnamed
  have hbase : readBase data = .ok interface.toBotDefinition :=
    readBase_eq_ok hconfiguration hevents hstates
  exact bind_eq_ok (requiredText_eq_ok_iff.mpr ⟨hname, hnonempty⟩)
    (bind_eq_ok (requiredText_eq_ok_iff.mpr ⟨hversion, hversioned⟩) (bind_eq_ok hbase
      (bind_eq_ok (sectionEntries_eq_ok (fun action _ => readAction_fields action) hactions)
        (bind_eq_ok (sectionEntries_eq_ok (fun channel _ => readChannel_fields channel) hchannels)
          rfl))))

/-- What is read as an integration's has a name and a version. -/
theorem isNamed_of_readInterface {interface : IntegrationInterface}
    (h : readInterface data = .ok interface) : interface.IsNamed := by
  obtain ⟨name, hname, h⟩ := exists_of_bind_eq_ok h
  obtain ⟨version, hversion, h⟩ := exists_of_bind_eq_ok h
  obtain ⟨base, -, h⟩ := exists_of_bind_eq_ok h
  obtain ⟨actions, -, h⟩ := exists_of_bind_eq_ok h
  obtain ⟨channels, -, h⟩ := exists_of_bind_eq_ok h
  cases h
  exact ⟨(requiredText_eq_ok_iff.mp hname).2, (requiredText_eq_ok_iff.mp hversion).2⟩

/-- A bot's definition loads from what it is written as. -/
theorem load_toJson_bot (b : BotDefinition) : load (toJson (.bot b)) = .ok (.bot b) :=
  bind_eq_ok rfl (bind_eq_ok (readBase_eq_ok rfl rfl rfl) rfl)

/-- So does that of an integration with a name and a version. -/
theorem load_toJson_integration {i : IntegrationDefinition} (hnamed : i.IsNamed) :
    load (toJson (.integration i)) = .ok (.integration i) := by
  have hinterface : readInterface (("kind", .str "integration") :: fields (.integration i)) =
      .ok i.toIntegrationInterface :=
    readInterface_eq_ok hnamed
      (forall_mem_fields_iff.mpr ⟨rfl, rfl, rfl, rfl, rfl, rfl, rfl⟩)
  exact bind_eq_ok rfl (bind_eq_ok hinterface (bind_eq_ok (readSecretNames_map i.secrets 0) rfl))

/-- So does that of an installed integration with an id, a name and a version. -/
theorem loadInstalled_toJson {i : InstalledIntegration} (hid : i.id ≠ "") (hnamed : i.IsNamed) :
    loadInstalled (toJson (.instance i)) = .ok i := by
  have hinterface : readInterface (("kind", .str "instance") :: fields (.instance i)) =
      .ok i.toIntegrationInterface :=
    readInterface_eq_ok hnamed
      (forall_mem_fields_iff.mpr ⟨rfl, rfl, rfl, rfl, rfl, rfl, rfl⟩)
  exact bind_eq_ok rfl (bind_eq_ok (requiredText_eq_ok_iff.mpr ⟨rfl, hid⟩)
    (bind_eq_ok hinterface rfl))

/-- What is loaded is a bot's definition, or that of an integration with a name and a version. -/
theorem cases_of_load {value : Json} {definition : Definition} (h : load value = .ok definition) :
    (∃ b, definition = .bot b) ∨
      ∃ i : IntegrationDefinition, definition = .integration i ∧ i.IsNamed := by
  obtain ⟨data, -, h⟩ := exists_of_bind_eq_ok h
  split at h
  · obtain ⟨b, -, h⟩ := exists_of_bind_eq_ok h
    cases h
    exact .inl ⟨b, rfl⟩
  · obtain ⟨interface, hinterface, h⟩ := exists_of_bind_eq_ok h
    obtain ⟨secrets, -, h⟩ := exists_of_bind_eq_ok h
    cases h
    exact .inr ⟨_, rfl, isNamed_of_readInterface hinterface⟩
  · cases h

/-- What is loaded as an installed integration has an id, a name and a version. -/
theorem isNamed_of_loadInstalled {value : Json} {i : InstalledIntegration}
    (h : loadInstalled value = .ok i) : i.id ≠ "" ∧ i.IsNamed := by
  obtain ⟨data, -, h⟩ := exists_of_bind_eq_ok h
  obtain ⟨id, hid, h⟩ := exists_of_bind_eq_ok h
  obtain ⟨interface, hinterface, h⟩ := exists_of_bind_eq_ok h
  cases h
  exact ⟨(requiredText_eq_ok_iff.mp hid).2, isNamed_of_readInterface hinterface⟩

/-- Loading loses nothing.  A definition loads from what it is written as, exactly if the texts that
its kind has to have are there; and what has been loaded, however it was spelled, loads again from
what it is written as. -/
theorem loads_as_written :
    (∀ b, load (toJson (.bot b)) = .ok (.bot b)) ∧
    (∀ i : IntegrationDefinition,
      load (toJson (.integration i)) = .ok (.integration i) ↔ i.IsNamed) ∧
    (∀ i : InstalledIntegration,
      loadInstalled (toJson (.instance i)) = .ok i ↔ i.id ≠ "" ∧ i.IsNamed) ∧
    (∀ value definition, load value = .ok definition →
      load (toJson definition) = .ok definition) ∧
    ∀ value i, loadInstalled value = .ok i → loadInstalled (toJson (.instance i)) = .ok i := by
  refine ⟨load_toJson_bot, fun i => ⟨fun h => ?_, load_toJson_integration⟩,
    fun i => ⟨isNamed_of_loadInstalled, fun h => loadInstalled_toJson h.1 h.2⟩,
    fun value definition h => ?_, fun value i h => ?_⟩
  · rcases cases_of_load h with ⟨b, hb⟩ | ⟨j, hj, hnamed⟩
    · cases hb
    · cases hj
      exact hnamed
  -- However a value is spelled, what is loaded from it has the texts that are asked for again.
  · rcases cases_of_load h with ⟨b, rfl⟩ | ⟨i, rfl, hnamed⟩
    · exact load_toJson_bot b
    · exact load_toJson_integration hnamed
  · obtain ⟨hid, hnamed⟩ := isNamed_of_loadInstalled h
    exact loadInstalled_toJson hid hnamed

/-- An integration that is spelled in an older way: the scope of its state stands under another key,
empty and missing parts stand for one another, and some keys mean nothing. -/
def olderDocument : Json :=
  .obj [("version", .str "1"), ("kind", .str "integration"), ("name", .str "n"), ("icon", .str "i"),
    ("configuration", .obj []), ("events", .null),
    ("states", .obj [("s", .obj [("scope", .str "bot"), ("title", .null), ("schema", .obj []),
      ("expiry", .int 0)])]),
    ("actions", .obj [("a", .obj [("output", .obj [("schema", .obj [("type", .str "null")])]),
      ("description", .str ""), ("input", .obj [("schema", .obj [])])])]),
    ("channels", .obj [("c", .obj [("messages", .bool false),
      ("message", .obj [("tags", .obj [("t", .null), ("u", .obj [("title", .str "U")])])]),
      ("conversation", .str "")])]),
    ("secrets", .arr [.str "KEY"])]

/-- The integration that `olderDocument` describes. -/
def olderIntegration : IntegrationDefinition where
  name := "n"
  version := "1"
  states := [("s", { schema := [], scope := .bot, expiry? := some 0 })]
  actions := [("a", ⟨[], [("type", .str "null")], { description? := some "" }⟩)]
  channels := [("c", { messageTags := [("t", {}), ("u", { title? := some "U" })] })]
  secrets := ["KEY"]

/-- The same integration, installed. -/
def olderInstance : InstalledIntegration :=
  { olderIntegration.toIntegrationInterface with id := "o" }

theorem loads_as_written_older :
    load olderDocument = .ok (.integration olderIntegration) ∧
      load (toJson (.integration olderIntegration)) = .ok (.integration olderIntegration) ∧
      (olderInstance.id ≠ "" ∧ olderInstance.IsNamed) ∧
      loadInstalled (toJson (.instance olderInstance)) = .ok olderInstance := by
  have hload : load olderDocument = .ok (.integration olderIntegration) := rfl
  have hnamed : olderInstance.id ≠ "" ∧ olderInstance.IsNamed :=
    ⟨by decide, by decide, by decide⟩
  obtain ⟨-, -, hinstalled, hagain, -⟩ := loads_as_written
  exact ⟨hload, hagain _ _ hload, hnamed, (hinstalled _).mpr hnamed⟩

end Definition
end SchemaTypings
