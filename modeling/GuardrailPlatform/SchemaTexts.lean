import GuardrailPlatform.Handlers
import GuardrailPlatform.SchemaCodec

/-!
# The texts of a parsed object

A handler reads the texts of its input by key.  Where a contract names a key
once, what is read under it has passed the check that stands there, and a text
that may not be left out is there.
-/

namespace Js

/-- What the schema answers is a text that passed a check. -/
def Schema.IsText (schema : Schema) (check : JSString → Bool) : Prop :=
  ∀ v w, schema.parse v = some w → ∃ s, w = .string s ∧ check s = true

/-- A text the schema answers, if it answers one, passed a check. -/
def Schema.Checks (schema : Schema) (check : JSString → Bool) : Prop :=
  ∀ v s, schema.parse v = some (.string s) → check s = true

/-- A schema of strings accepts a text under its own check, and answers with it. -/
theorem isText_string (check : JSString → Bool) : (Schema.string check).IsText check := by
  intro v w h
  obtain ⟨s, -, rfl, hcheck⟩ := parse_string_eq_some.mp h
  exact ⟨s, rfl, hcheck⟩

/-- An enumeration accepts a text when it is one of its names, and answers with it. -/
theorem isText_enum (values : List JSString) :
    (Schema.enum values).IsText fun s => decide (s ∈ values) := by
  intro v w h
  rw [parse_enum] at h
  exact isText_string _ v w h

/-- A schema that answers checked texts only has checked whatever text it answers. -/
theorem Schema.IsText.checks {schema : Schema} {check : JSString → Bool}
    (h : schema.IsText check) : schema.Checks check := by
  intro v s hparse
  obtain ⟨s', hs', hcheck⟩ := h v _ hparse
  obtain rfl := Value.string.inj hs'
  exact hcheck

/-- A text that may be left out is checked wherever it is given. -/
theorem Schema.Checks.optional {schema : Schema} {check : JSString → Bool}
    (h : schema.Checks check) : (Schema.optional schema).Checks check := by
  intro v s hparse
  rcases parse_optional_cases hparse with hundefined | hinner
  · cases hundefined
  · exact h v s hinner

/-- A text that may be `null` is checked wherever it is not `null`. -/
theorem Schema.Checks.nullable {schema : Schema} {check : JSString → Bool}
    (h : schema.Checks check) : (Schema.nullable schema).Checks check := by
  intro v s hparse
  rcases parse_nullable_cases hparse with hnull | hinner
  · cases hnull
  · exact h v s hinner

section Fields

variable {fields : List (JSString × Schema)} {members out : List (JSString × Value)}
  {key : JSString} {schema : Schema} {check : JSString → Bool}

/-- A field whose schema answers with texts only is never dropped from the answer. -/
theorem mem_of_isText (hparse : parseFields fields members = some out)
    (hfield : (key, schema) ∈ fields) (htext : schema.IsText check) :
    ∃ s, (key, Value.string s) ∈ out := by
  induction fields generalizing out with
  | nil => cases hfield
  | cons field fields ih =>
      obtain ⟨first, inner⟩ := field
      obtain ⟨v, rest, hv, hrest, rfl⟩ := parseFields_cons hparse
      rcases List.mem_cons.mp hfield with hsame | hlater
      · obtain ⟨rfl, rfl⟩ := Prod.mk.inj hsame
        obtain ⟨s, rfl, -⟩ := htext _ _ hv
        exact ⟨s, List.mem_cons_self⟩
      · obtain ⟨s, hs⟩ := ih hrest hlater
        refine ⟨s, ?_⟩
        unfold keepMember
        split
        · exact hs
        · exact List.mem_cons_of_mem _ hs

/-- What the answer holds under a key is what the key's one field has parsed there. -/
theorem parse_of_lookup (hparse : parseFields fields members = some out)
    (honly : fields.filter (fun field => field.1 == key) = [(key, schema)]) {w : Value}
    (hlookup : out.lookup key = some w) :
    schema.parse ((members.lookup key).getD .undefined) = some w := by
  obtain ⟨schema', hfield, hv⟩ := field_of_lookup_parse hparse hlookup
  have hmem : (key, schema') ∈ fields.filter fun field => field.1 == key :=
    List.mem_filter.mpr ⟨hfield, beq_self_eq_true key⟩
  rw [honly] at hmem
  obtain ⟨-, rfl⟩ := Prod.mk.inj (List.mem_singleton.mp hmem)
  exact hv

/-- A text that may not be left out is found under its key in the answer. -/
theorem lookup_of_isText (hparse : parseFields fields members = some out)
    (honly : fields.filter (fun field => field.1 == key) = [(key, schema)])
    (htext : schema.IsText check) : ∃ s, out.lookup key = some (.string s) := by
  have hfield : (key, schema) ∈ fields := by
    have hmem : (key, schema) ∈ fields.filter fun field => field.1 == key := by
      rw [honly]
      exact List.mem_singleton_self _
    exact (List.mem_filter.mp hmem).1
  obtain ⟨s, hs⟩ := mem_of_isText hparse hfield htext
  -- whatever the key finds, its field parsed it
  cases hlookup : out.lookup key with
  | none =>
      have hnone := List.lookup_eq_none_iff.mp hlookup (key, .string s) hs
      exact absurd rfl (bne_iff_ne.mp hnone)
  | some w =>
      obtain ⟨found, rfl, -⟩ := htext _ _ (parse_of_lookup hparse honly hlookup)
      exact ⟨found, rfl⟩

variable {v input : Value}

/-- The text under a key of an object is what is read there. -/
theorem text?_object {s : JSString} (h : out.lookup key = some (.string s)) :
    (Value.object out).text? key = some s := by
  show (out.lookup key).bind Value.string? = some s
  rw [h]
  rfl

/-- What is read under a key that a contract checks has passed. -/
theorem check_of_text? (hparse : (Schema.object fields).parse v = some input)
    (honly : fields.filter (fun field => field.1 == key) = [(key, schema)])
    (hchecks : schema.Checks check) {s : JSString} (htext : input.text? key = some s) :
    check s = true := by
  obtain ⟨members, out, -, hout, rfl⟩ := parse_object_eq_some hparse
  obtain ⟨w, hlookup, hw⟩ := Option.bind_eq_some_iff.mp htext
  obtain rfl := Value.string?_eq_some.mp hw
  exact hchecks _ s (parse_of_lookup hout honly hlookup)

/-- A text that a handler reads out of a parsed input has passed its field's
check. -/
theorem check_of_nullableText? (hparse : (Schema.object fields).parse v = some input)
    (honly : fields.filter (fun field => field.1 == key) = [(key, schema)])
    (hchecks : schema.Checks check) {s : JSString} (htext : input.nullableText? key = some (some s)) :
    check s = true := by
  apply check_of_text? hparse honly hchecks
  unfold Value.nullableText? at htext
  unfold Value.text?
  split at htext
  · rename_i s' hmember
    obtain rfl := Option.some.inj (Option.some.inj htext)
    rw [hmember]
    rfl
  · cases Option.some.inj htext
  · cases htext

/-- A text that may not be left out is there, and has passed. -/
theorem check_of_text (hparse : (Schema.object fields).parse v = some input)
    (honly : fields.filter (fun field => field.1 == key) = [(key, schema)])
    (htext : schema.IsText check) : check (input.text key) = true := by
  have hparse' := hparse
  obtain ⟨members, out, -, hout, rfl⟩ := parse_object_eq_some hparse'
  obtain ⟨found, hlookup⟩ := lookup_of_isText hout honly htext
  have hread : (Value.object out).text? key = some found := text?_object hlookup
  rw [Value.text, hread]
  exact check_of_text? hparse honly htext.checks hread

/-- What is read under the key of a string schema is the text it was given. -/
theorem text_given (hparse : (Schema.object fields).parse v = some input)
    (honly : fields.filter (fun field => field.1 == key) = [(key, .string check)]) :
    v.text? key = some (input.text key) := by
  obtain ⟨members, out, hmembers, hout, rfl⟩ := parse_object_eq_some hparse
  obtain ⟨found, hlookup⟩ := lookup_of_isText hout honly (isText_string check)
  obtain ⟨s, hgiven, hs, -⟩ := parse_string_eq_some.mp (parse_of_lookup hout honly hlookup)
  obtain rfl := Value.string.inj hs
  have hstands : members.lookup key = some (.string found) := by
    cases hmember : members.lookup key with
    | none =>
        rw [hmember] at hgiven
        cases hgiven
    | some w =>
        rw [hmember] at hgiven
        exact congrArg some hgiven
  rw [Value.text, text?_object hlookup, Value.text?, Guardrail.member?_of_ownMembers? hmembers,
    hstands]
  rfl

end Fields

end Js
