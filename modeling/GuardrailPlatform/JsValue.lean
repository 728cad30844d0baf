import GuardrailPlatform.JsNumber

/-!
# JavaScript values and the JSON they project to

`Value` is what a program holds: JSON data, and everything JSON cannot say.
`Json` is what crosses a wire.  `project` is `JSON.parse` after
`JSON.stringify`, with its two escapes kept apart: a value that is silently
left out (`undefined`, a function, a symbol) and one that makes the call throw
(a bigint).

An object is the list of its own enumerable string-keyed properties in
own-property order: array indices first, ascending, then the other keys as
they were created.
-/

namespace Js

/-- A moment a `Date` can hold: 100 million days either side of the epoch. -/
structure Instant where
  ms : ℤ
  inRange : -8640000000000000 ≤ ms ∧ ms ≤ 8640000000000000
deriving DecidableEq

/-- A JavaScript value.  A `Date` whose time is `none` is an invalid one. -/
inductive Value
  | undefined
  | null
  | bool (b : Bool)
  | number (x : Number)
  | string (s : JSString)
  | bigint (n : ℤ)
  | symbol
  | function
  | date (time : Option Instant)
  | array (items : List Value)
  | object (members : List (JSString × Value))

/-- A JSON value. -/
inductive Json
  | null
  | bool (b : Bool)
  | number (x : Finite)
  | string (s : JSString)
  | array (items : List Json)
  | object (members : List (JSString × Json))

/-! ## Dates as text -/

/-- A decimal numeral padded with zeros to a width. -/
def padded (width n : ℕ) : JSString :=
  zeros (width - (digitText n).length) ++ digitText n

/-- Year, month and day of a day counted from 1970-01-01, in the proleptic
Gregorian calendar.  The year is taken to start in March. -/
def civilFromDays (days : ℤ) : ℤ × ℕ × ℕ :=
  let z := days + 719468
  let era := z.fdiv 146097
  let doe := (z - era * 146097).toNat
  let yoe := (doe - doe / 1460 + doe / 36524 - doe / 146096) / 365
  let doy := doe - (365 * yoe + yoe / 4 - yoe / 100)
  let mp := (5 * doy + 2) / 153
  let day := doy - (153 * mp + 2) / 5 + 1
  let month := if mp < 10 then mp + 3 else mp - 9
  ((yoe : ℤ) + era * 400 + (if month ≤ 2 then 1 else 0), month, day)

/-- Four digits for the years 0 to 9999, a sign and six digits for the rest. -/
def yearText (y : ℤ) : JSString :=
  if 0 ≤ y ∧ y ≤ 9999 then padded 4 y.toNat
  else (if y < 0 then 45 else 43) :: padded 6 y.natAbs

/-- `Date.prototype.toISOString` of a valid date. -/
def toISOString (t : Instant) : JSString :=
  let days := t.ms.fdiv 86400000
  let inDay := (t.ms - days * 86400000).toNat
  let (year, month, day) := civilFromDays days
  yearText year ++ str "-" ++ padded 2 month ++ str "-" ++ padded 2 day ++ str "T" ++
    padded 2 (inDay / 3600000) ++ str ":" ++ padded 2 (inDay / 60000 % 60) ++ str ":" ++
    padded 2 (inDay / 1000 % 60) ++ str "." ++ padded 3 (inDay % 1000) ++ str "Z"

example : toISOString ⟨1787133600000, by decide⟩ = str "2026-08-19T10:00:00.000Z" := by decide

/-! ## The JSON projection -/

/-- What `JSON.stringify` makes of a value. -/
inductive Serialized
  | throws
  | omitted
  | json (j : Json)

mutual

/-- `JSON.parse (JSON.stringify value)`. -/
def project : Value → Serialized
  | .undefined => .omitted
  | .null => .json .null
  | .bool b => .json (.bool b)
  | .number (.finite x) => .json (.number x.unsignZero)
  | .number _ => .json .null
  | .string s => .json (.string s)
  | .bigint _ => .throws
  | .symbol => .omitted
  | .function => .omitted
  | .date (some t) => .json (.string (toISOString t))
  | .date none => .json .null
  | .array items =>
    match projectItems items with
    | some js => .json (.array js)
    | none => .throws
  | .object members =>
    match projectMembers members with
    | some js => .json (.object js)
    | none => .throws

/-- Array elements that JSON leaves out become `null`. -/
def projectItems : List Value → Option (List Json)
  | [] => some []
  | v :: vs =>
    match project v, projectItems vs with
    | .json j, some js => some (j :: js)
    | .omitted, some js => some (.null :: js)
    | _, _ => none

/-- Members that JSON leaves out are dropped. -/
def projectMembers : List (JSString × Value) → Option (List (JSString × Json))
  | [] => some []
  | (k, v) :: ms =>
    match project v, projectMembers ms with
    | .json j, some js => some ((k, j) :: js)
    | .omitted, some js => some js
    | _, _ => none

end

mutual

/-- A parsed JSON value, as the program holds it. -/
def Json.toValue : Json → Value
  | .null => .null
  | .bool b => .bool b
  | .number x => .number (.finite x)
  | .string s => .string s
  | .array items => .array (toValues items)
  | .object members => .object (toMembers members)

def Json.toValues : List Json → List Value
  | [] => []
  | j :: js => j.toValue :: toValues js

def Json.toMembers : List (JSString × Json) → List (JSString × Value)
  | [] => []
  | (k, j) :: js => (k, j.toValue) :: toMembers js

end

/-- A member is sent, or left out where JSON cannot say it. -/
theorem projectMembers_cons {k : JSString} {v : Value} {ms : List (JSString × Value)}
    {ps : List (JSString × Json)} (h : projectMembers ((k, v) :: ms) = some ps) :
    (∃ j ps', project v = .json j ∧ projectMembers ms = some ps' ∧ ps = (k, j) :: ps') ∨
      project v = .omitted ∧ projectMembers ms = some ps := by
  rw [projectMembers] at h
  split at h
  · rename_i j ps' hj hps
    exact .inl ⟨j, ps', hj, hps, (Option.some.inj h).symm⟩
  · rename_i ps' hv hps
    exact .inr ⟨hv, h ▸ hps⟩
  · cases h

/-- What a key leads to in a list of entries is an entry under that key. -/
theorem mem_of_lookup {γ : Type} {entries : List (JSString × γ)} {k : JSString} {c : γ}
    (h : entries.lookup k = some c) : (k, c) ∈ entries := by
  obtain ⟨front, back, rfl, -⟩ := List.lookup_eq_some_iff.mp h
  exact List.mem_append_right _ List.mem_cons_self

/-- A member that is a string, or absent, is the same after projection. -/
theorem lookup_projectMembers {members : List (JSString × Value)} {ps : List (JSString × Json)}
    {k : JSString} (h : projectMembers members = some ps)
    (hstring : ∀ v, members.lookup k = some v → ∃ s, v = .string s) :
    (members.lookup k).map project = (ps.lookup k).map Serialized.json := by
  induction members generalizing ps with
  | nil =>
      obtain rfl := Option.some.inj h
      rfl
  | cons m ms ih =>
      obtain ⟨key, v⟩ := m
      by_cases hkey : k = key
      · subst hkey
        obtain ⟨s, rfl⟩ := hstring v (by simp)
        rcases projectMembers_cons h with ⟨j, ps', hj, -, rfl⟩ | ⟨homitted, -⟩
        · simp [hj]
        · cases homitted
      · have hskip : ∀ {γ : Type} (w : γ) (rest : List (JSString × γ)),
            ((key, w) :: rest).lookup k = rest.lookup k := by
          intro γ w rest
          rw [List.lookup_cons, beq_false_of_ne hkey]
        rw [hskip] at hstring ⊢
        rcases projectMembers_cons h with ⟨j, ps', -, hps, rfl⟩ | ⟨-, hps⟩
        · rw [hskip]
          exact ih hps hstring
        · exact ih hps hstring

/-- A key of JSON leads to the same when it is read as a value. -/
theorem lookup_toMembers (members : List (JSString × Json)) (k : JSString) :
    (Json.toMembers members).lookup k = (members.lookup k).map Json.toValue := by
  induction members with
  | nil => rfl
  | cons m ms ih =>
      obtain ⟨key, j⟩ := m
      rw [Json.toMembers, List.lookup_cons, List.lookup_cons, ih]
      split <;> rfl

theorem Json.ind {P : Json → Prop} (null : P .null) (bool : ∀ b, P (.bool b))
    (number : ∀ x, P (.number x)) (string : ∀ s, P (.string s))
    (array : ∀ items, (∀ j ∈ items, P j) → P (.array items))
    (object : ∀ members : List (JSString × Json), (∀ m ∈ members, P m.2) → P (.object members)) :
    ∀ j, P j := by
  refine fun j => @Json.rec P (fun items => ∀ j ∈ items, P j)
    (fun members => ∀ m ∈ members, P m.2) (fun m => P m.2)
    null bool number string array object ?_ ?_ ?_ ?_ ?_ j
  · simp
  · intro j js hj hjs
    simpa using ⟨hj, hjs⟩
  · simp
  · intro m ms hm hms
    simp only [List.mem_cons, forall_eq_or_imp]
    exact ⟨hm, hms⟩
  · intro k j hj
    exact hj

theorem Value.ind {P : Value → Prop} (undefined : P .undefined) (null : P .null)
    (bool : ∀ b, P (.bool b)) (number : ∀ x, P (.number x)) (string : ∀ s, P (.string s))
    (bigint : ∀ n, P (.bigint n)) (symbol : P .symbol) (function : P .function)
    (date : ∀ t, P (.date t)) (array : ∀ items, (∀ v ∈ items, P v) → P (.array items))
    (object : ∀ members : List (JSString × Value), (∀ m ∈ members, P m.2) → P (.object members)) :
    ∀ v, P v := by
  refine fun v => @Value.rec P (fun items => ∀ v ∈ items, P v)
    (fun members => ∀ m ∈ members, P m.2) (fun m => P m.2)
    undefined null bool number string bigint symbol function date array object
    ?_ ?_ ?_ ?_ ?_ v
  · simp
  · intro v vs hv hvs
    simpa using ⟨hv, hvs⟩
  · simp
  · intro m ms hm hms
    simp only [List.mem_cons, forall_eq_or_imp]
    exact ⟨hm, hms⟩
  · intro k v hv
    exact hv

end Js
