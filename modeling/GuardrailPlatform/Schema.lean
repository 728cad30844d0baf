import GuardrailPlatform.JsValue

/-!
# Schemas

The zod combinators a contract is written with, and what `parse` does: refuse
with `none`, or answer the parsed value.  An object schema takes any object that
is no array, strips the keys it does not name, keeps a named key in schema order,
and keeps an own key whose value is `undefined` where its schema allows that.  A
record takes plain objects only, and passes over an own `__proto__`.

Text formats and `new Date(...)` are parameters of the schemas that use them.
-/

namespace Js

inductive Schema
  | string (check : JSString → Bool)
  /-- A string that is answered rewritten, as `z.url()` answers it trimmed. -/
  | rewritten (read : JSString → Option JSString)
  | boolean
  | number (check : Finite → Bool)
  | literal (b : Bool)
  | enum (values : List JSString)
  /-- `z.custom` over a guard on strings. -/
  | guarded (guard : JSString → Bool)
  /-- `z.coerce.date()`: a `Date` is copied, anything else goes through `new Date(...)`. -/
  | date (newDate : Value → Option Instant)
  | nullable (inner : Schema)
  | optional (inner : Schema)
  | withDefault (inner : Schema) (value : Value)
  | array (inner : Schema)
  /-- `z.partialRecord`. -/
  | record (key : JSString → Bool) (inner : Schema)
  | object (fields : List (JSString × Schema))
  | refine (inner : Schema) (check : Value → Bool)

/-- The members of an object, and nothing of anything else. -/
def Value.members? : Value → Option (List (JSString × Value))
  | .object members => some members
  | _ => none

/-- The own keys an object schema finds.  It takes a `Date` for an object, which
has none. -/
def Value.ownMembers? : Value → Option (List (JSString × Value))
  | .object members => some members
  | .date _ => some []
  | _ => none

def Value.items? : Value → Option (List Value)
  | .array items => some items
  | _ => none

def Value.string? : Value → Option JSString
  | .string s => some s
  | _ => none

def Value.isUndefined : Value → Bool
  | .undefined => true
  | _ => false

def Value.isNull : Value → Bool
  | .null => true
  | _ => false

/-- A value shows a string exactly where it is that string. -/
theorem Value.string?_eq_some {v : Value} {s : JSString} : v.string? = some s ↔ v = .string s := by
  cases v <;> simp [string?]

/-- Parse every element with one schema. -/
def parseItems (parse : Value → Option Value) : List Value → Option (List Value)
  | [] => some []
  | v :: vs => (parse v).bind fun w => (parseItems parse vs).map (w :: ·)

/-- The key a record passes over. -/
def protoKey : JSString := str "__proto__"

/-- Parse every value of a record whose keys pass. -/
def parseRecord (key : JSString → Bool) (parse : Value → Option Value) :
    List (JSString × Value) → Option (List (JSString × Value))
  | [] => some []
  | (k, v) :: ms =>
    if k = protoKey then parseRecord key parse ms
    else if key k then (parse v).bind fun w => (parseRecord key parse ms).map ((k, w) :: ·)
    else none

/-- Put a parsed member in the output, unless it is `undefined` and was not there. -/
def keepMember (members : List (JSString × Value)) (k : JSString) (v : Value)
    (out : List (JSString × Value)) : List (JSString × Value) :=
  if v.isUndefined && (members.lookup k).isNone then out else (k, v) :: out

mutual

/-- `schema.safeParse(value)`. -/
def Schema.parse : Schema → Value → Option Value
  | .string check, v => v.string?.bind fun s => if check s then some (.string s) else none
  | .rewritten read, v => v.string?.bind fun s => (read s).map .string
  | .boolean, v =>
    match v with
    | .bool b => some (.bool b)
    | _ => none
  | .number check, v =>
    match v with
    | .number (.finite x) => if check x then some (.number (.finite x)) else none
    | _ => none
  | .literal b, v =>
    match v with
    | .bool c => if c = b then some (.bool b) else none
    | _ => none
  | .enum values, v => v.string?.bind fun s => if s ∈ values then some (.string s) else none
  | .guarded guard, v => v.string?.bind fun s => if guard s then some (.string s) else none
  | .date newDate, v =>
    match v with
    | .date time => time.map fun t => .date (some t)
    | _ => (newDate v).map fun t => .date (some t)
  | .nullable inner, v => if v.isNull then some .null else inner.parse v
  | .optional inner, v => if v.isUndefined then some .undefined else inner.parse v
  | .withDefault inner value, v => if v.isUndefined then some value else inner.parse v
  | .array inner, v => v.items?.bind fun items => (parseItems inner.parse items).map .array
  | .record key inner, v =>
    v.members?.bind fun members => (parseRecord key inner.parse members).map .object
  | .object fields, v => v.ownMembers?.bind fun members => (parseFields fields members).map .object
  | .refine inner check, v =>
    (inner.parse v).bind fun w => if check w then some w else none

/-- The named members of an object, each parsed by its schema. -/
def parseFields : List (JSString × Schema) → List (JSString × Value) →
    Option (List (JSString × Value))
  | [], _ => some []
  | (k, schema) :: fields, members =>
    (schema.parse ((members.lookup k).getD .undefined)).bind fun v =>
      (parseFields fields members).map (keepMember members k v)

end

/-! ## Members of a parsed object -/

/-- Parsing fields parses the first of them, and keeps it before what the others give. -/
theorem parseFields_cons {k : JSString} {schema : Schema} {fields : List (JSString × Schema)}
    {members out : List (JSString × Value)}
    (h : parseFields ((k, schema) :: fields) members = some out) :
    ∃ v rest, schema.parse ((members.lookup k).getD .undefined) = some v ∧
      parseFields fields members = some rest ∧ out = keepMember members k v rest := by
  rw [parseFields] at h
  obtain ⟨v, hv, h⟩ := Option.bind_eq_some_iff.mp h
  obtain ⟨rest, hrest, rfl⟩ := Option.map_eq_some_iff.mp h
  exact ⟨v, rest, hv, hrest, rfl⟩

/-- An object's fields parse when each of its members parses under the field of its name. -/
theorem parseFields_of_forall {fields : List (JSString × Schema)}
    {members out : List (JSString × Value)}
    (h : List.Forall₂ (fun field member => member.1 = field.1 ∧ member.2.isUndefined = false ∧
      field.2.parse ((members.lookup field.1).getD .undefined) = some member.2) fields out) :
    parseFields fields members = some out := by
  induction h with
  | nil => rfl
  | @cons field member fields out hfield _ ih =>
      obtain ⟨k, schema⟩ := field
      obtain ⟨key, v⟩ := member
      obtain ⟨rfl, hdefined, hparse⟩ := hfield
      rw [parseFields, hparse, ih, Option.bind_some, Option.map_some, keepMember]
      simp [show v.isUndefined = false from hdefined]

/-- One member that does not parse is enough to refuse an object. -/
theorem parseFields_eq_none {fields : List (JSString × Schema)} {members : List (JSString × Value)}
    {k : JSString} {schema : Schema} (hfield : (k, schema) ∈ fields)
    (hparse : schema.parse ((members.lookup k).getD .undefined) = none) :
    parseFields fields members = none := by
  induction fields with
  | nil => cases hfield
  | cons field fields ih =>
      rcases List.mem_cons.mp hfield with rfl | hfield
      · rw [parseFields, hparse, Option.bind_none]
      · rw [parseFields, ih hfield]
        cases field.2.parse ((members.lookup field.1).getD .undefined) <;> rfl

/-- A member of the output was parsed by the field of its key. -/
theorem field_of_mem_parse {fields : List (JSString × Schema)}
    {members out : List (JSString × Value)} {m : JSString × Value}
    (h : parseFields fields members = some out) (hm : m ∈ out) :
    ∃ schema, (m.1, schema) ∈ fields ∧
      schema.parse ((members.lookup m.1).getD .undefined) = some m.2 := by
  induction fields generalizing out with
  | nil =>
      obtain rfl := Option.some.inj h
      cases hm
  | cons field fields ih =>
      obtain ⟨key, schema⟩ := field
      obtain ⟨w, rest, hw, hrest, rfl⟩ := parseFields_cons h
      have hlater : m ∈ rest → ∃ schema', (m.1, schema') ∈ (key, schema) :: fields ∧
          schema'.parse ((members.lookup m.1).getD .undefined) = some m.2 := by
        intro hmem
        obtain ⟨schema', hfield, hparse⟩ := ih hrest hmem
        exact ⟨schema', List.mem_cons_of_mem _ hfield, hparse⟩
      unfold keepMember at hm
      split at hm
      · exact hlater hm
      · rcases List.mem_cons.mp hm with rfl | hm
        · exact ⟨schema, List.mem_cons_self, hw⟩
        · exact hlater hm

/-- What a key of a parsed object leads to was parsed by the field of that key. -/
theorem field_of_lookup_parse {fields : List (JSString × Schema)}
    {members out : List (JSString × Value)} {k : JSString} {v : Value}
    (h : parseFields fields members = some out) (hlookup : out.lookup k = some v) :
    ∃ schema, (k, schema) ∈ fields ∧ schema.parse ((members.lookup k).getD .undefined) = some v :=
  field_of_mem_parse h (mem_of_lookup hlookup)

/-! ## Schemas that leave a member alone -/

/-- What the schema does with one key of an object: strip it, or demand one of
some names. -/
def Schema.namesOnly (k : JSString) : Schema → Bool
  | .object fields => fields.all fun field => field.1 != k ||
      match field.2 with
      | .enum _ => true
      | _ => false
  | .refine inner _ => inner.namesOnly k
  | _ => false

/-- A member such a schema keeps is the string it was given. -/
theorem string_of_namesOnly {k : JSString} : ∀ {schema : Schema}, schema.namesOnly k = true →
    ∀ {v w : Value}, schema.parse v = some w → ∃ members out, v.ownMembers? = some members ∧
      w = .object out ∧ ∀ member, out.lookup k = some member →
        ∃ name, member = .string name ∧ members.lookup k = some (.string name)
  | .object fields, hnames, v, w, hparse => by
      rw [Schema.parse] at hparse
      obtain ⟨members, hmembers, hparse⟩ := Option.bind_eq_some_iff.mp hparse
      obtain ⟨out, hout, rfl⟩ := Option.map_eq_some_iff.mp hparse
      refine ⟨members, out, hmembers, rfl, ?_⟩
      intro member hmember
      obtain ⟨schema, hfield, hparsed⟩ := field_of_lookup_parse hout hmember
      have hfieldNames := List.all_eq_true.mp hnames _ hfield
      cases schema with
      | enum values =>
          rw [Schema.parse] at hparsed
          obtain ⟨name, hname, hparsed⟩ := Option.bind_eq_some_iff.mp hparsed
          obtain ⟨-, hmember⟩ := Option.ite_none_right_eq_some.mp hparsed
          refine ⟨name, (Option.some.inj hmember).symm, ?_⟩
          cases hlookup : members.lookup k with
          | none =>
              rw [hlookup] at hname
              cases hname
          | some given =>
              rw [hlookup, Option.getD_some, Value.string?_eq_some] at hname
              rw [hname]
      | _ => simp at hfieldNames
  | .refine inner check, hnames, v, w, hparse => by
      rw [Schema.parse] at hparse
      obtain ⟨parsed, hparsed, hchecked⟩ := Option.bind_eq_some_iff.mp hparse
      obtain ⟨-, hw⟩ := Option.ite_none_right_eq_some.mp hchecked
      obtain rfl := Option.some.inj hw
      exact @string_of_namesOnly k inner hnames v _ hparsed

/-- Does an object schema name the key? -/
def Schema.hasField (k : JSString) : Schema → Bool
  | .object fields => (fields.lookup k).isSome
  | .refine inner _ => inner.hasField k
  | _ => false

/-- A key that is one of some names is in every parsed object. -/
theorem lookup_of_enum {k : JSString} {values : List JSString} :
    ∀ {fields : List (JSString × Schema)} {members out : List (JSString × Value)},
      fields.lookup k = some (.enum values) → parseFields fields members = some out →
        ∃ name, out.lookup k = some (.string name)
  | [], members, out, hfield, _ => by cases hfield
  | (key, schema) :: fields, members, out, hfield, hparse => by
      obtain ⟨v, rest, hv, hrest, rfl⟩ := parseFields_cons hparse
      by_cases hkey : k = key
      · subst hkey
        rw [List.lookup_cons_self, Option.some.injEq] at hfield
        subst hfield
        rw [Schema.parse] at hv
        obtain ⟨name, -, hchecked⟩ := Option.bind_eq_some_iff.mp hv
        obtain ⟨-, hname⟩ := Option.ite_none_right_eq_some.mp hchecked
        obtain rfl := Option.some.inj hname
        exact ⟨name, by simp [keepMember, Value.isUndefined]⟩
      · rw [List.lookup_cons, beq_false_of_ne hkey] at hfield
        obtain ⟨name, hname⟩ := lookup_of_enum hfield hrest
        refine ⟨name, ?_⟩
        unfold keepMember
        split
        · exact hname
        · rw [List.lookup_cons, beq_false_of_ne hkey]
          exact hname

/-- A schema that names a key and demands one of some names keeps the key. -/
theorem exists_string_of_hasField {k : JSString} : ∀ {schema : Schema},
    schema.namesOnly k = true → schema.hasField k = true → ∀ {v w : Value},
      schema.parse v = some w → ∃ out name, w = .object out ∧ out.lookup k = some (.string name)
  | .object fields, hnames, hfield, v, w, hparse => by
      rw [Schema.parse] at hparse
      obtain ⟨members, -, hparse⟩ := Option.bind_eq_some_iff.mp hparse
      obtain ⟨out, hout, rfl⟩ := Option.map_eq_some_iff.mp hparse
      obtain ⟨schema, hschema⟩ := Option.isSome_iff_exists.mp hfield
      have hfieldNames := List.all_eq_true.mp hnames _ (mem_of_lookup hschema)
      cases schema with
      | enum values =>
          obtain ⟨name, hname⟩ := lookup_of_enum hschema hout
          exact ⟨out, name, rfl, hname⟩
      | _ => simp at hfieldNames
  | .refine inner check, hnames, hfield, v, w, hparse => by
      rw [Schema.parse] at hparse
      obtain ⟨parsed, hparsed, hchecked⟩ := Option.bind_eq_some_iff.mp hparse
      obtain ⟨-, hw⟩ := Option.ite_none_right_eq_some.mp hchecked
      obtain rfl := Option.some.inj hw
      exact @exists_string_of_hasField k inner hnames hfield v _ hparsed

end Js
