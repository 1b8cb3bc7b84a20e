/-
  SchemaTypings.Proofs.Typescript.Literal

  Literal types are faithful.  The text of null, of a truth value, of an integer or of a string
  holds no control character and is read back as the very value, so it is no other value's text.
  There is such a text for integers up to a number of digits.
  Hence the union of an enumeration loses nothing but repetitions when its members are compared as
  texts.
-/
import SchemaTypings.Schema.Convert
import SchemaTypings.Proofs.Json.Scalar
import SchemaTypings.Proofs.Schema.Leaves
import SchemaTypings.Proofs.Typescript.Phrase
import SchemaTypings.Proofs.Typescript.TypeReader
import SchemaTypings.Proofs.Typescript.Writable
import Mathlib.Data.List.Induction

namespace SchemaTypings.Typescript

/-! ## Characters -/

theorem visible_of_mem_escapeChar {c d : Char} (h : d ∈ Json.escapeChar c) : 0x20 ≤ d.toNat := by
  have hdigits : ∀ n < 0x20, ∀ d ∈ Json.escapeUnit n, 0x20 ≤ d.toNat := by
    have hall : ((List.range 0x20).all fun n =>
        (Json.escapeUnit n).all fun d => 0x20 ≤ d.toNat) = true := by decide +kernel
    intro n hn d hd
    have hunit := List.all_eq_true.mp hall n (List.mem_range.mpr hn)
    exact of_decide_eq_true (List.all_eq_true.mp hunit d hd)
  have hpair : ∀ e : Char, 0x20 ≤ e.toNat → d ∈ ['\\', e] → 0x20 ≤ d.toNat := by
    intro e he hd
    simp only [List.mem_cons, List.not_mem_nil, or_false] at hd
    rcases hd with rfl | rfl
    · decide
    · exact he
  unfold Json.escapeChar at h
  split at h
  · exact hpair '"' (by decide) h
  split at h
  · exact hpair '\\' (by decide) h
  split at h
  · exact hpair 'n' (by decide) h
  split at h
  · exact hpair 'r' (by decide) h
  split at h
  · exact hpair 't' (by decide) h
  split at h
  · exact hpair 'b' (by decide) h
  split at h
  · exact hpair 'f' (by decide) h
  split at h
  · next hcontrol => exact hdigits _ hcontrol d h
  · next hvisible =>
    rw [List.mem_singleton.mp h]
    omega

theorem visible_of_mem_quoted {cs : List Char} {d : Char} (h : d ∈ Json.quoted cs) :
    0x20 ≤ d.toNat := by
  rw [Json.quoted, List.cons_append, List.mem_cons, List.mem_append, List.mem_singleton] at h
  rcases h with rfl | h | rfl
  · decide
  · obtain ⟨c, -, hd⟩ := List.mem_flatMap.mp h
    exact visible_of_mem_escapeChar hd
  · decide

theorem digit_or_minus_of_mem_intChars {n : Int} {c : Char} (h : c ∈ intChars n) :
    c.isDigit = true ∨ c = '-' := by
  rw [intChars] at h
  split at h
  · rcases List.mem_cons.mp h with rfl | h
    · exact .inr rfl
    · exact .inl (Json.isDigit_of_mem_toDigits h)
  · exact .inl (Json.isDigit_of_mem_toDigits h)

/-- No text of a literal holds a control character. -/
theorem visible_of_mem_literal {v : Json} (hv : isReadableLiteral v = true) {c : Char}
    (h : c ∈ v.chars) : 0x20 ≤ c.toNat := by
  have hwords : ∀ word ∈ ["null", "true", "false"].map String.toList,
      ∀ c ∈ word, 0x20 ≤ c.toNat := by
    have hall : ((["null", "true", "false"].map String.toList).all fun word =>
        word.all fun c => 0x20 ≤ c.toNat) = true := by decide
    intro word hword c hc
    exact of_decide_eq_true (List.all_eq_true.mp (List.all_eq_true.mp hall word hword) c hc)
  have hdigits : ∀ c : Char, c.isDigit = true → 0x20 ≤ c.toNat := by
    intro c hc
    simp only [Char.isDigit, Bool.and_eq_true, decide_eq_true_eq] at hc
    have hzero : (48 : UInt32).toNat ≤ c.val.toNat := hc.1
    exact Nat.le_trans (by decide) hzero
  cases v with
  | null => exact hwords _ (by decide) c h
  | bool b =>
    cases b with
    | true => exact hwords _ (by decide) c h
    | false => exact hwords _ (by decide) c h
  | int n =>
    rcases digit_or_minus_of_mem_intChars h with hdigit | rfl
    · exact hdigits c hdigit
    · decide
  | str s => exact visible_of_mem_quoted h
  | float x => cases hv
  | arr items => cases hv
  | obj entries => cases hv

/-- The text of a float tells that it is no integer. -/
theorem exists_mem_floatChars (x : Binary64) :
    ∃ c ∈ FloatFormat.json.chars x, c.isDigit = false ∧ c ≠ '-' := by
  have hdecimal : ∀ d, ∃ c ∈ FloatFormat.json.decimal d, c.isDigit = false ∧ c ≠ '-' := by
    intro d
    rw [FloatFormat.decimal]
    split
    · refine ⟨'.', ?_, by decide⟩
      rw [FloatFormat.positional]
      split
      · exact List.mem_append_left _ (List.mem_append_left _ (by decide))
      · exact List.mem_append_right _ List.mem_cons_self
    · exact ⟨'e', List.mem_append_right _ List.mem_cons_self, by decide⟩
  rw [FloatFormat.chars]
  split
  · exact ⟨'N', by decide, by decide⟩
  · exact ⟨'I', List.mem_append_right _ (by decide), by decide⟩
  · exact ⟨'.', List.mem_append_right _ (by decide), by decide⟩
  · next significand exponent _ _ =>
    obtain ⟨c, hc, hsign⟩ := hdecimal (Shortest.decimal significand exponent)
    exact ⟨c, List.mem_append_right _ hc, hsign⟩

/-! ## Texts -/

theorem readScalar?_chars {v : Json} (hv : isReadableLiteral v = true) :
    Json.readScalar? v.chars = some v := by
  cases v with
  | null => rfl
  | bool b => cases b <;> rfl
  | int n => exact Json.readScalar?_int n
  | str s => exact Json.readScalar?_str s
  | float x => cases hv
  | arr items => cases hv
  | obj entries => cases hv

/-- No literal is written like a float. -/
theorem floatChars_ne {v : Json} (hv : isReadableLiteral v = true) (x : Binary64) :
    FloatFormat.json.chars x ≠ v.chars := by
  intro h
  have hparts : ∀ c ∈ v.chars, isNumberPart c = true :=
    fun c hc => isNumberPart_of_mem_floatChars (h ▸ hc)
  have hother : ∀ c, isNumberPart c = false → c ∉ v.chars := by
    intro c hc hmem
    cases hc.symm.trans (hparts c hmem)
  cases v with
  | null => exact hother 'u' (by decide) (by simp [Json.chars])
  | bool b =>
    cases b with
    | true => exact hother 'r' (by decide) (by simp [Json.chars])
    | false => exact hother 'l' (by decide) (by simp [Json.chars])
  | int n =>
    obtain ⟨c, hc, hdigit, hminus⟩ := exists_mem_floatChars x
    rw [h] at hc
    rcases digit_or_minus_of_mem_intChars hc with hc | hc
    · cases hdigit.symm.trans hc
    · exact hminus hc
  | str s => exact hother '"' (by decide) (by simp [Json.chars, Json.quoted])
  | float x => cases hv
  | arr items => cases hv
  | obj entries => cases hv

/-- No literal is written like a list or an object. -/
theorem head?_chars_literal {v : Json} (hv : isReadableLiteral v = true) :
    v.chars.head? ≠ some '[' ∧ v.chars.head? ≠ some '\x7b' := by
  cases v with
  | null => exact ⟨by simp [Json.chars], by simp [Json.chars]⟩
  | bool b => cases b <;> exact ⟨by simp [Json.chars], by simp [Json.chars]⟩
  | int n =>
    have hint : ∀ c, c.isDigit = false → c ≠ '-' → (intChars n).head? ≠ some c := by
      intro c hdigit hminus hhead
      rcases digit_or_minus_of_mem_intChars (List.mem_of_head? hhead) with hc | hc
      · cases hdigit.symm.trans hc
      · exact hminus hc
    exact ⟨hint '[' (by decide) (by decide), hint '\x7b' (by decide) (by decide)⟩
  | str s => exact ⟨by simp [Json.chars, Json.quoted], by simp [Json.chars, Json.quoted]⟩
  | float x => cases hv
  | arr items => cases hv
  | obj entries => cases hv

/-- The text of a literal is that of no other value. -/
theorem eq_of_chars_eq {v w : Json} (hv : isReadableLiteral v = true) (h : w.chars = v.chars) :
    w = v := by
  by_cases hw : isReadableLiteral w = true
  · have hread := readScalar?_chars hw
    rw [h, readScalar?_chars hv] at hread
    exact (Option.some.inj hread).symm
  · obtain ⟨hlist, hobject⟩ := head?_chars_literal hv
    rw [← h] at hlist hobject
    cases w with
    | float x => exact absurd h (floatChars_ne hv x)
    | arr items => exact absurd rfl hlist
    | obj entries => exact absurd rfl hobject
    | _ => exact absurd rfl hw

/-! ## Enumerations -/

/-- The type of a value of an enumeration. -/
def literalType : Json → TypeExpr
  | .null => .null
  | v => .literal v

/-- The node of a value of an enumeration. -/
def valueNode : Json → SchemaNode
  | .null => .null {}
  | v => .literal v {}

/-- Whether a type is the union of values, each of which is left out only where it is repeated. -/
def IsUnionOf (values : List Json) (t : TypeExpr) : Prop :=
  ∃ kept : List Json, t = .union (kept.map literalType) ∧ kept.Nodup ∧ kept ⊆ values ∧
    ∀ v ∈ values, isReadableLiteral v = true → v ∈ kept

theorem chars_literalType (v : Json) : (literalType v).chars = v.chars := by
  cases v with
  | null => rfl
  | _ => rfl

/-- Of values with one text the first is kept. -/
theorem isUnionOf_dedupe (values : List Json) :
    IsUnionOf values (.union (TypeExpr.dedupe (values.map literalType))) := by
  suffices h : ∃ kept : List Json, TypeExpr.dedupe (values.map literalType) = kept.map literalType ∧
      kept.Nodup ∧ kept ⊆ values ∧ ∀ v ∈ values, ∃ w ∈ kept, w.chars = v.chars by
    obtain ⟨kept, heq, hnodup, hsub, hall⟩ := h
    refine ⟨kept, by rw [heq], hnodup, hsub, fun v hv hliteral => ?_⟩
    obtain ⟨w, hw, hchars⟩ := hall v hv
    exact eq_of_chars_eq hliteral hchars ▸ hw
  -- The values are looked at one after the other, each beside those kept before it.
  induction values using List.reverseRecOn with
  | nil => exact ⟨[], rfl, List.nodup_nil, fun _ h => h, fun _ h => nomatch h⟩
  | append_singleton front last ih =>
    obtain ⟨kept, heq, hnodup, hsub, hall⟩ := ih
    have hstep : TypeExpr.dedupe ((front ++ [last]).map literalType) =
        if (kept.map literalType).any (·.chars = last.chars) then kept.map literalType
        else kept.map literalType ++ [literalType last] := by
      rw [← heq, ← chars_literalType last, List.map_append, TypeExpr.dedupe, List.foldl_append]
      rfl
    rw [hstep]
    split
    · next hany =>
      obtain ⟨t, ht, hchars⟩ := List.any_eq_true.mp hany
      obtain ⟨w, hw, rfl⟩ := List.mem_map.mp ht
      refine ⟨kept, rfl, hnodup, fun v hv => List.mem_append_left _ (hsub hv), ?_⟩
      rw [List.forall_mem_append, List.forall_mem_singleton]
      rw [decide_eq_true_eq, chars_literalType] at hchars
      exact ⟨hall, w, hw, hchars⟩
    · next hany =>
      have hnew : last ∉ kept := by
        intro hmem
        refine hany (List.any_eq_true.mpr ⟨_, List.mem_map_of_mem hmem, ?_⟩)
        rw [decide_eq_true_eq, chars_literalType]
      refine ⟨kept ++ [last], by rw [List.map_append]; rfl, ?_, ?_, ?_⟩
      · exact List.nodup_append.mpr ⟨hnodup, List.nodup_singleton _, by
          rintro a ha b hb rfl
          exact hnew (List.mem_singleton.mp hb ▸ ha)⟩
      · exact List.append_subset.mpr ⟨fun v hv => List.mem_append_left _ (hsub hv),
          List.subset_append_right _ _⟩
      · rw [List.forall_mem_append, List.forall_mem_singleton]
        refine ⟨fun v hv => ?_, last, by simp, rfl⟩
        obtain ⟨w, hw, hchars⟩ := hall v hv
        exact ⟨w, List.mem_append_left _ hw, hchars⟩

theorem eq_valueNode_of_literalNode {value : Json} {location : Location} {node : SchemaNode}
    (h : Schema.literalNode value location = .ok node) : node = valueNode value := by
  rcases Schema.literalNode_cases h with ⟨rfl, rfl⟩ | ⟨hne, rfl⟩
  · rfl
  · cases value with
    | null => exact absurd rfl hne
    | _ => rfl

theorem refer_valueNode (v : Json) (hint : String) (names : Naming.Sanitizer) :
    refer (valueNode v) hint names = .plain (literalType v) names := by
  cases v with
  | null => rw [valueNode, refer, literalType]
  | _ => rw [valueNode, refer, literalType] <;> simp

theorem referMembers_valueNodes (values : List Json) (name : String) (number : Nat)
    (names : Naming.Sanitizer) :
    referMembers (values.map valueNode) name number names =
      .plain (values.map literalType) names := by
  induction values generalizing number with
  | nil => rw [List.map_nil, referMembers, List.map_nil]
  | cons v rest ih =>
    rw [List.map_cons, referMembers, refer_valueNode, Hoisted.andThen]
    dsimp only [Hoisted.plain]
    rw [ih]
    rfl

theorem anyHoldsObject_valueNodes (values : List Json) :
    anyHoldsObject (values.map valueNode) = false := by
  induction values with
  | nil => rfl
  | cons v rest ih =>
    rw [List.map_cons, anyHoldsObject, ih, Bool.or_false]
    cases v with
    | null => rfl
    | _ => rfl

theorem isNull_valueNode_iff {v : Json} : (valueNode v).isNull = true ↔ v = .null := by
  cases v with
  | null => exact ⟨fun _ => rfl, fun _ => rfl⟩
  | _ => exact ⟨nofun, nofun⟩

/-- One value beside null is written in front of it. -/
theorem isUnionOf_nullable {values : List Json} {only : SchemaNode}
    (h : nullableMember? (values.map valueNode) = some only) :
    ∃ v, only = valueNode v ∧ IsUnionOf values (.union [literalType v, .null]) := by
  obtain ⟨⟨null, hnull, hisNull⟩, heq⟩ := nullableMember?_eq_some_iff.mp h
  have hmem : Json.null ∈ values := by
    obtain ⟨v, hv, rfl⟩ := List.mem_map.mp hnull
    exact isNull_valueNode_iff.mp hisNull ▸ hv
  rw [List.filter_map] at heq
  obtain ⟨v, hfilter, rfl⟩ := List.map_eq_singleton_iff.mp heq
  have hkept : ∀ w, w ∈ values ∧ w ≠ .null ↔ w = v := by
    intro w
    have hfiltered : w ∈ values.filter ((!·.isNull) ∘ valueNode) ↔ w = v := by
      rw [hfilter, List.mem_singleton]
    rw [← hfiltered, List.mem_filter, Function.comp, Bool.not_eq_true', ← Bool.not_eq_true,
      isNull_valueNode_iff]
  obtain ⟨hv, hne⟩ := (hkept v).mpr rfl
  refine ⟨v, rfl, [v, .null], rfl, by simp [hne], by simp [hv, hmem], ?_⟩
  intro w hw _
  by_cases hnull : w = .null
  · simp [hnull]
  · simp [(hkept w).mp ⟨hw, hnull⟩]

/-- The union of an enumeration, in place or declared, has each of its values once. -/
theorem isUnionOf_enumNode {values : List Json} {location : Location} {description : Json}
    {node : SchemaNode} (h : Schema.enumNode (.arr values) location description = .ok node)
    (hmany : 2 ≤ values.length) (name : String) (names : Naming.Sanitizer) :
    IsUnionOf values (refer node name names).result ∧
      ∃ t, (bodyOf node name names).result = .alias t ∧ IsUnionOf values t := by
  obtain rfl : node = .union (values.map valueNode) { description } := by
    rcases Schema.enumNode_cases h with ⟨value, heq, -⟩ | ⟨items, nodes, heq, -, hnodes, rfl⟩
    · cases heq
      exact absurd hmany (by simp)
    · cases heq
      have hrow : List.Forall₂ (· = ·) nodes (values.map valueNode) := by
        rw [List.forall₂_map_right_iff]
        exact (hnodes.imp fun _ _ ⟨_, hvalue⟩ => eq_valueNode_of_literalNode hvalue).flip
      rw [List.forall₂_eq_eq_eq] at hrow
      rw [hrow]
  constructor
  · rw [refer]
    split
    · next only honly =>
      obtain ⟨v, rfl, hunion⟩ := isUnionOf_nullable honly
      rw [refer_valueNode]
      exact hunion
    · rw [anyHoldsObject_valueNodes, if_neg Bool.false_ne_true, referMembers_valueNodes]
      exact isUnionOf_dedupe values
  · rw [bodyOf, referMembers_valueNodes]
    exact ⟨_, rfl, isUnionOf_dedupe values⟩

/-- What a literal type says is what is written for it. -/
theorem formatLiteral_of_isWritable {v : Json} (h : v.isWritable = true) :
    formatLiteral v = .ok (String.ofList (literalType v).chars) := by
  rw [formatLiteral_eq_written, Json.written, if_pos h, chars_literalType, Json.text]

/-- The text of a literal is read back as the value by the reader of JSON documents. -/
theorem parse_text_literal {v : Json} (hv : isReadableLiteral v = true) (h : v.isWritable = true) :
    Json.parse v.text = .ok v := by
  rw [Json.parse, Json.text, String.toList_ofList]
  refine Json.parseChars_of_readScalar? (readScalar?_chars hv) ?_
  rintro n rfl
  exact (Json.length_filter_intChars_le_iff (by decide)).mpr (Json.isWritable_int_iff.mp h)

/-- A text that is written for a value is the value's JSON text. -/
theorem eq_text_of_formatLiteral {v : Json} {text : String} (h : formatLiteral v = .ok text) :
    text = v.text := by
  rw [formatLiteral_eq_written, Json.written] at h
  split at h <;> cases h
  rfl

/-- Literal types are faithful.  Null, a truth value, an integer that has not too many digits and a
string are each written as a text without control characters that is read back as that value, and
that no other value is written as.  So the union of an enumeration, in place or declared, leaves out
such a value only where it is repeated. -/
theorem literals_faithful :
    (∀ v : Json, isReadableLiteral v = true → v.isWritable = true →
      ∃ text, formatLiteral v = .ok text ∧ (∀ c ∈ text.toList, 0x20 ≤ c.toNat) ∧
        Json.parse text = .ok v ∧ ∀ w : Json, formatLiteral w = .ok text → w = v) ∧
      ∀ (values : List Json) (location : Location) (description : Json) (node : SchemaNode),
        Schema.enumNode (.arr values) location description = .ok node → 2 ≤ values.length →
        (∀ v ∈ values, v.isWritable = true) →
          (∀ v ∈ values, formatLiteral v = .ok (String.ofList (literalType v).chars)) ∧
          ∀ (name : String) (names : Naming.Sanitizer),
            IsUnionOf values (refer node name names).result ∧
              ∃ t, (bodyOf node name names).result = .alias t ∧ IsUnionOf values t := by
  refine ⟨fun v hv hwritable => ?_, fun values location description node h hmany hwritable =>
    ⟨fun v hmem => formatLiteral_of_isWritable (hwritable v hmem),
      fun name names => isUnionOf_enumNode h hmany name names⟩⟩
  refine ⟨v.text, ?_, fun c hc => ?_, parse_text_literal hv hwritable, fun w hw => ?_⟩
  · rw [formatLiteral_of_isWritable hwritable, chars_literalType, Json.text]
  · rw [Json.text, String.toList_ofList] at hc
    exact visible_of_mem_literal hv hc
  · exact eq_of_chars_eq hv (String.ofList_injective (eq_text_of_formatLiteral hw)).symm

/-- Values that look alike, one of them twice. -/
def lookalikes : List Json :=
  [.int 1, .bool true, .str "1", .str "true", .null, .str "null", .int 1]

/-- Of the values that look alike all are written, and the one that is repeated once. -/
theorem literals_faithful_lookalikes :
    formatLiteral (.str "\x7f\"\n") = .ok "\"\x7f\\\"\\n\"" ∧
      Json.parse "\"\x7f\\\"\\n\"" = .ok (.str "\x7f\"\n") ∧
      ∃ node, Schema.enumNode (.arr lookalikes) .root .null = .ok node ∧ 2 ≤ lookalikes.length ∧
        IsUnionOf lookalikes (refer node "Foo" sanitizer).result ∧
        (TypeExpr.union (TypeExpr.dedupe (lookalikes.map literalType))).chars =
          "1 | true | \"1\" | \"true\" | null | \"null\"".toList := by
  have hnode : Schema.enumNode (.arr lookalikes) .root .null =
      .ok (.union (lookalikes.map valueNode) {}) := rfl
  have hwritable : ∀ v ∈ lookalikes, v.isWritable = true := by
    have hone : (Json.int 1).isWritable = true := Json.isWritable_int_of_lt (by decide)
    simp only [lookalikes, List.forall_mem_cons]
    exact ⟨hone, rfl, rfl, rfl, rfl, rfl, hone, List.forall_mem_nil _⟩
  have hwritten : formatLiteral (.str "\x7f\"\n") = .ok "\"\x7f\\\"\\n\"" := by
    decide +kernel
  obtain ⟨hliterals, hunions⟩ := literals_faithful
  obtain ⟨text, htext, -, hparse, -⟩ := hliterals (.str "\x7f\"\n") rfl rfl
  obtain rfl : text = _ := Except.ok.inj (htext.symm.trans hwritten)
  refine ⟨hwritten, hparse, _, hnode, by decide, ?_, ?_⟩
  · exact ((hunions lookalikes .root .null _ hnode (by decide) hwritable).2 "Foo" sanitizer).1
  · decide +kernel

/-- An integer of too many digits is not written at all. -/
theorem formatLiteral_pow :
    isReadableLiteral (.int (10 ^ Json.maxIntegerDigits)) = true ∧
      formatLiteral (.int (10 ^ Json.maxIntegerDigits)) = .error .numeralTooLong := by
  refine ⟨rfl, ?_⟩
  rw [formatLiteral_eq_written, Json.written, Json.not_isWritable_pow, if_neg Bool.false_ne_true]

end SchemaTypings.Typescript
