import GuardrailPlatform.SchemaCodec

/-!
# Schemas of inputs

An input is an object of fields, some of them optional.  What JSON cannot carry
of a parsed input is an optional key that its sender spelled out as
`undefined`: the parser keeps it, and only it (`inside_undefined_iff`).
-/

namespace Js

/-! ## Schemas that answer no negative zero -/

/-- Nothing the schema answers has a zero to make positive. -/
def Schema.Exact (schema : Schema) : Prop :=
  ∀ v w, schema.parse v = some w → w.unsigned = w

def exactFields : List (JSString × Schema) → Prop
  | [] => True
  | (_, schema) :: fields => schema.Exact ∧ exactFields fields

theorem exact_string (check : JSString → Bool) : (Schema.string check).Exact := by
  intro v w h
  obtain ⟨s, -, rfl, -⟩ := parse_string_eq_some.mp h
  rfl

/-- What a schema makes of a string is a string, so it crosses exactly. -/
theorem exact_rewritten (read : JSString → Option JSString) : (Schema.rewritten read).Exact := by
  intro v w h
  obtain ⟨s, t, -, -, rfl⟩ := parse_rewritten_eq_some.mp h
  rfl

theorem exact_enum (values : List JSString) : (Schema.enum values).Exact := by
  intro v w h
  rw [parse_enum] at h
  exact exact_string _ v w h

theorem exact_boolean : Schema.boolean.Exact := by
  intro v w h
  cases v with
  | bool b =>
      obtain rfl := Option.some.inj h
      rfl
  | _ => cases h

/-- Numbers cross exactly where the schema takes no zero, whose sign JSON drops. -/
theorem exact_number {check : Finite → Bool} (h : ∀ negative, check (.zero negative) = false) :
    (Schema.number check).Exact := by
  intro v w hparse
  obtain ⟨x, -, rfl, hcheck⟩ := parse_number_eq_some.mp hparse
  cases x with
  | zero negative =>
      rw [h negative] at hcheck
      cases hcheck
  | nonzero negative d => rfl

theorem exact_nullable {inner : Schema} (h : inner.Exact) : (Schema.nullable inner).Exact := by
  intro v w hparse
  rcases parse_nullable_cases hparse with rfl | hinner
  · rfl
  · exact h v w hinner

/-- An optional input that is there crosses as its inner schema does. -/
theorem exact_optional {inner : Schema} (h : inner.Exact) : (Schema.optional inner).Exact := by
  intro v w hparse
  rcases parse_optional_cases hparse with rfl | hinner
  · rfl
  · exact h v w hinner

/-- A default that its own schema accepts crosses as what was given does. -/
theorem exact_withDefault {inner : Schema} {value : Value} (h : inner.Exact)
    (hvalue : inner.parse value = some value) : (Schema.withDefault inner value).Exact := by
  intro v w hparse
  obtain ⟨u, hu⟩ := parse_withDefault_cases hvalue hparse
  exact h u w hu

/-- Where the fields of an object are exact together, each of them is exact. -/
theorem exact_of_mem {fields : List (JSString × Schema)} (h : exactFields fields) :
    ∀ field ∈ fields, field.2.Exact := by
  induction fields with
  | nil => simp
  | cons field fields ih =>
      intro other hmem
      rcases List.mem_cons.mp hmem with rfl | hmem
      · exact h.1
      · exact ih h.2 other hmem

/-- An object crosses exactly as it was where each of its fields does. -/
theorem exact_object {fields : List (JSString × Schema)} (h : exactFields fields) :
    (Schema.object fields).Exact := by
  intro v w hparse
  obtain ⟨members, out, -, hout, rfl⟩ := parse_object_eq_some hparse
  rw [Value.unsigned, Value.unsignedMembers_eq]
  have hsame : ∀ m ∈ out, (m.1, m.2.unsigned) = id m := by
    intro m hm
    obtain ⟨schema, hfield, hv⟩ := field_of_mem_parse hout hm
    exact Prod.ext rfl (exact_of_mem h _ hfield _ _ hv)
  rw [List.map_congr_left hsame, List.map_id]

theorem exact_refine {inner : Schema} {check : Value → Bool} (h : inner.Exact) :
    (Schema.refine inner check).Exact :=
  fun v w hparse => h v w (parse_refine_eq_some.mp hparse).1

/-! ## Inputs -/

/-- A field of an input: only where it is optional may it answer `undefined`. -/
def Schema.isField : Schema → Bool
  | .optional inner => !inner.mayHold .undefined
  | schema => !schema.mayHold .undefined

/-- An object of such fields, perhaps refined. -/
def Schema.isInput : Schema → Bool
  | .object fields => fields.all fun field => field.2.isField
  | .refine inner _ => inner.isInput
  | _ => false

/-- Is the key of an optional field spelled out as `undefined`? -/
def Schema.spellsUndefined : Schema → Value → Prop
  | .object fields, v => ∃ k inner, (k, .optional inner) ∈ fields ∧
      v.ownMembers?.bind (·.lookup k) = some .undefined
  | .refine inner _, v => inner.spellsUndefined v
  | _, _ => False

/-- Where `undefined` is left in an answer, the field was optional and had been left out. -/
theorem optional_of_undefined {newDate : Value → Option Instant} {schema : Schema} {v w : Value}
    (hstable : schema.Stable newDate) (hfield : schema.isField = true)
    (h : schema.parse v = some w) (hinside : Inside .undefined w) :
    ∃ inner, schema = .optional inner ∧ v = .undefined ∧ w = .undefined := by
  have hheld := mayHold_of_inside hstable h hinside
  cases schema with
  | optional inner =>
      rw [Schema.parse] at h
      split at h
      · rename_i hundefined
        obtain rfl := Option.some.inj h
        cases v with
        | undefined => exact ⟨inner, rfl, rfl, rfl⟩
        | _ => cases hundefined
      · have hinner : inner.mayHold .undefined = true := mayHold_of_inside hstable h hinside
        rw [Schema.isField, hinner] at hfield
        cases hfield
  | _ => simp [Schema.isField, hheld] at hfield

/-- An `undefined` that a parsed object has kept stood under its key in the input. -/
theorem exists_lookup_of_kept {fields : List (JSString × Schema)}
    {members out : List (JSString × Value)} {k : JSString}
    (h : parseFields fields members = some out) (hkept : (k, .undefined) ∈ out) :
    ∃ v, members.lookup k = some v := by
  induction fields generalizing out with
  | nil =>
      obtain rfl := Option.some.inj h
      cases hkept
  | cons field fields ih =>
      obtain ⟨key, schema⟩ := field
      obtain ⟨v, rest, -, hrest, rfl⟩ := parseFields_cons h
      unfold keepMember at hkept
      split at hkept
      · exact ih hrest hkept
      · rename_i hpresent
        rcases List.mem_cons.mp hkept with hhere | hlater
        · obtain ⟨rfl, rfl⟩ := Prod.mk.inj hhere
          rw [Value.isUndefined, Bool.true_and, Option.isNone_iff_eq_none] at hpresent
          exact Option.ne_none_iff_exists'.mp hpresent
        · exact ih hrest hlater

/-- A field whose key is in the input is kept, as what its schema makes of the value. -/
theorem kept_of_lookup {fields : List (JSString × Schema)} {members out : List (JSString × Value)}
    {k : JSString} {schema : Schema} {v : Value} (h : parseFields fields members = some out)
    (hfield : (k, schema) ∈ fields) (hlookup : members.lookup k = some v) :
    ∃ w, schema.parse v = some w ∧ (k, w) ∈ out := by
  induction fields generalizing out with
  | nil => cases hfield
  | cons field fields ih =>
      obtain ⟨key, schema'⟩ := field
      obtain ⟨w, rest, hw, hrest, rfl⟩ := parseFields_cons h
      rcases List.mem_cons.mp hfield with hhere | hlater
      · obtain ⟨rfl, rfl⟩ := Prod.mk.inj hhere
        rw [hlookup, Option.getD_some] at hw
        refine ⟨w, hw, ?_⟩
        rw [keepMember, hlookup, Option.isNone_some, Bool.and_false, if_neg Bool.false_ne_true]
        exact List.mem_cons_self
      · obtain ⟨w', hw', hmem⟩ := ih hrest hlater
        refine ⟨w', hw', ?_⟩
        unfold keepMember
        split
        · exact hmem
        · exact List.mem_cons_of_mem _ hmem

/-- **What JSON cannot carry** of a parsed input is what its sender spelled out. -/
theorem inside_undefined_iff {newDate : Value → Option Instant} {schema : Schema} {v w : Value}
    (hstable : schema.Stable newDate) (hinput : schema.isInput = true)
    (h : schema.parse v = some w) : Inside .undefined w ↔ schema.spellsUndefined v := by
  induction schema using Schema.ind generalizing v w with
  | object fields ih =>
      obtain ⟨members, out, hmembers, hout, rfl⟩ := parse_object_eq_some h
      rw [Schema.spellsUndefined, hmembers]
      have hfields := stable_of_mem hstable.2
      constructor
      · intro hinside
        cases hinside with
        | @member m _ hmem hinside =>
            obtain ⟨k, w⟩ := m
            obtain ⟨schema, hfield, hv⟩ := field_of_mem_parse hout hmem
            obtain ⟨inner, rfl, hundefined, rfl⟩ := optional_of_undefined (hfields _ hfield)
              (List.all_eq_true.mp hinput _ hfield) hv hinside
            obtain ⟨v, hlookup⟩ := exists_lookup_of_kept hout hmem
            rw [hlookup, Option.getD_some] at hundefined
            exact ⟨k, inner, hfield, hundefined ▸ hlookup⟩
      · intro h
        obtain ⟨k, inner, hfield, hspelled⟩ := h
        obtain ⟨w, hw, hmem⟩ := kept_of_lookup hout hfield hspelled
        obtain rfl := Option.some.inj hw
        exact .member hmem (.self _)
  | refine inner check ih =>
      rw [Schema.spellsUndefined]
      exact ih hstable.1 hinput (parse_refine_eq_some.mp h).1
  | _ => cases hinput

end Js
