import GuardrailPlatform.InputFidelity

/-!
# What the canonical encoding tells apart

On data, values have one canonical text exactly when JSON makes the same of
them, up to the order of object members.  Keys are what they are: `__proto__`,
`toJSON` and keys that look like integers are members like any other, and the
arrangement of the members does not depend on the order they came in.
-/

namespace Guardrail

open Js

/-- Nothing that JSON would lose, and distinct keys in every object. -/
structure Plain (v : Value) : Prop where
  data : ∀ u, Inside u v → u.isData = true
  keys : ∀ members, Inside (.object members) v → (members.map Prod.fst).Nodup

theorem keys_projectMembers {members : List (JSString × Value)} {ps : List (JSString × Json)}
    (h : projectMembers members = some ps) :
    (ps.map Prod.fst).Sublist (members.map Prod.fst) := by
  induction members generalizing ps with
  | nil =>
      obtain rfl := Option.some.inj h
      exact .slnil
  | cons m ms ih =>
      obtain ⟨k, v⟩ := m
      rcases projectMembers_cons h with ⟨j, ps', -, hps', rfl⟩ | ⟨-, hps⟩
      · exact (ih hps').cons_cons k
      · exact (ih hps).cons k

/-- An array is sent element by element, what JSON cannot say as `null`. -/
theorem projectItems_cons {v : Value} {vs : List Value} {ps : List Json}
    (h : projectItems (v :: vs) = some ps) :
    ∃ j js, (project v = .json j ∨ j = .null) ∧ projectItems vs = some js ∧ ps = j :: js := by
  rw [projectItems] at h
  split at h
  · rename_i j js hj hjs
    exact ⟨j, js, .inl hj, hjs, (Option.some.inj h).symm⟩
  · rename_i js hj hjs
    exact ⟨.null, js, .inr rfl, hjs, (Option.some.inj h).symm⟩
  · cases h

/-- What an array sends repeats no key where none of its elements does. -/
theorem distinctItems_of_project {items : List Value} {ps : List Json}
    (hitems : ∀ v ∈ items, ∀ p, project v = .json p → p.DistinctKeys)
    (h : projectItems items = some ps) : Json.DistinctItems ps := by
  induction items generalizing ps with
  | nil =>
      obtain rfl := Option.some.inj h
      trivial
  | cons v vs ih =>
      obtain ⟨j, js, hj, hjs, rfl⟩ := projectItems_cons h
      refine ⟨?_, ih (fun w hw => hitems w (List.mem_cons_of_mem _ hw)) hjs⟩
      rcases hj with hj | rfl
      · exact hitems v List.mem_cons_self j hj
      · trivial

/-- What an object sends repeats no key where none of its members does. -/
theorem distinctMembers_of_project {members : List (JSString × Value)}
    {ps : List (JSString × Json)}
    (hmembers : ∀ m ∈ members, ∀ p, project m.2 = .json p → p.DistinctKeys)
    (h : projectMembers members = some ps) : Json.DistinctMembers ps := by
  induction members generalizing ps with
  | nil =>
      obtain rfl := Option.some.inj h
      trivial
  | cons m ms ih =>
      obtain ⟨k, v⟩ := m
      have hrest := fun ps => @ih ps fun n hn => hmembers n (List.mem_cons_of_mem _ hn)
      rcases projectMembers_cons h with ⟨j, ps', hj, hps', rfl⟩ | ⟨-, hps⟩
      · exact ⟨hmembers _ List.mem_cons_self j hj, hrest ps' hps'⟩
      · exact hrest ps hps

/-- The projection of a value has distinct keys where the value has. -/
theorem distinctKeys_of_project {v : Value} {p : Json}
    (hkeys : ∀ members, Inside (.object members) v → (members.map Prod.fst).Nodup)
    (hp : project v = .json p) : p.DistinctKeys := by
  induction v using Value.ind generalizing p with
  | array items ih =>
      rw [project] at hp
      split at hp
      · rename_i ps hps
        obtain rfl := Serialized.json.inj hp
        apply distinctItems_of_project ?_ hps
        intro v hv p hp
        exact ih v hv (fun members hinside => hkeys members (.item hv hinside)) hp
      · cases hp
  | object members ih =>
      rw [project] at hp
      split at hp
      · rename_i ps hps
        obtain rfl := Serialized.json.inj hp
        refine ⟨(hkeys members (.self _)).sublist (keys_projectMembers hps), ?_⟩
        apply distinctMembers_of_project ?_ hps
        intro m hm p hp
        exact ih m hm (fun inner hinside => hkeys inner (.member hm hinside)) hp
      · cases hp
  | undefined => cases hp
  | bigint n => cases hp
  | symbol => cases hp
  | function => cases hp
  | null =>
      obtain rfl := Serialized.json.inj hp
      trivial
  | bool b =>
      obtain rfl := Serialized.json.inj hp
      trivial
  | string s =>
      obtain rfl := Serialized.json.inj hp
      trivial
  | number x =>
      cases x <;> obtain rfl := Serialized.json.inj hp <;> trivial
  | date t =>
      cases t <;> obtain rfl := Serialized.json.inj hp <;> trivial

/-- Data has a canonical text, and what JSON makes of it has the same. -/
theorem canonicalJson_of_plain {v : Value} (h : Plain v) :
    ∃ t p, canonicalJson v = some t ∧ project v = .json p ∧ canonicalJson p.toValue = some t ∧
      t = render p.sortKeys := by
  obtain ⟨c, hc⟩ := Option.isSome_iff_exists.mp ((canonicalise_isSome_iff v).mpr h.data)
  obtain ⟨p, hp, hcp⟩ := project_of_canonicalise hc
  have ht : canonicalJson v = some (render c) := by
    rw [canonicalJson, hc, Option.map_some]
  refine ⟨render c, p, ht, hp, canonicalJson_of_project ht hp, ?_⟩
  rw [← render_unsign, hcp]

/-- **The canonical encoding.**  Data has one canonical text exactly when it has
one JSON projection up to member order; the text survives the codec; and
whatever JSON would drop or corrupt has none. -/
theorem canonical_encoding (v w : Value) :
    (Plain v → Plain w → (canonicalJson v = canonicalJson w ↔ SameProjection v w)) ∧
    (Plain v → ∃ t p, canonicalJson v = some t ∧ project v = .json p ∧
      canonicalJson p.toValue = some t) ∧
    ((∃ u, Inside u v ∧ u.isData = false) → canonicalJson v = none) := by
  refine ⟨?_, ?_, ?_⟩
  · intro hv hw
    obtain ⟨t, p, ht, hp, -, htext⟩ := canonicalJson_of_plain hv
    obtain ⟨s, q, hs, hq, -, hstext⟩ := canonicalJson_of_plain hw
    constructor
    · intro heq
      exact sameProjection_of_canonicalJson ht (heq ▸ ht)
    · intro hsame
      obtain ⟨x, y, hx, hy, hxy⟩ := hsame
      obtain rfl := Serialized.json.inj (hp.symm.trans hx)
      obtain rfl := Serialized.json.inj (hq.symm.trans hy)
      rw [ht, hs, htext, hstext, sortKeys_eq_of_same (distinctKeys_of_project hv.keys hp) hxy]
  · intro hv
    obtain ⟨t, p, ht, hp, hback, -⟩ := canonicalJson_of_plain hv
    exact ⟨t, p, ht, hp, hback⟩
  · intro hinside
    obtain ⟨u, hinside, hdata⟩ := hinside
    cases hc : canonicalise v with
    | none => rw [canonicalJson, hc, Option.map_none]
    | some c =>
        have hall := (canonicalise_isSome_iff v).mp (by rw [hc]; rfl) u hinside
        rw [hdata] at hall
        cases hall

/-- An object with keys of every kind, its members in two orders. -/
def oddMembers : List (JSString × Value) :=
  [(str "9", .number (.finite (.zero true))), (str "10", .null),
    (str "__proto__", .object [(str "role", .string (str "owner"))]), (str "toJSON", .bool true)]

/-- The example's object is plain data in whichever order its members are written down. -/
theorem plain_odd {members : List (JSString × Value)} (h : members.Perm oddMembers) :
    Plain (.object members) := by
  constructor
  · intro u hinside
    rcases inside_object_iff.mp hinside with rfl | ⟨m, hm, hinside⟩
    · rfl
    · have hm := h.subset hm
      simp only [oddMembers, List.mem_cons, List.not_mem_nil, or_false] at hm
      rcases hm with rfl | rfl | rfl | rfl
      · cases hinside; rfl
      · cases hinside; rfl
      · rcases inside_object_iff.mp hinside with rfl | ⟨m, hm, hinside⟩
        · rfl
        · obtain rfl := List.mem_singleton.mp hm
          cases hinside
          rfl
      · cases hinside; rfl
  · intro inner hinside
    rcases inside_object_iff.mp hinside with heq | ⟨m, hm, hinside⟩
    · obtain rfl := Value.object.inj heq
      rw [(h.map Prod.fst).nodup_iff]
      decide
    · have hm := h.subset hm
      simp only [oddMembers, List.mem_cons, List.not_mem_nil, or_false] at hm
      rcases hm with rfl | rfl | rfl | rfl
      · cases hinside
      · cases hinside
      · rcases inside_object_iff.mp hinside with heq | ⟨m, hm, hinside⟩
        · obtain rfl := Value.object.inj heq
          decide
        · obtain rfl := List.mem_singleton.mp hm
          cases hinside
      · cases hinside

/-- An object has one text in either order, and an invalid date has none. -/
theorem canonical_encoding_odd :
    (canonicalJson (.object oddMembers) = canonicalJson (.object oddMembers.reverse) ↔
      SameProjection (.object oddMembers) (.object oddMembers.reverse)) ∧
    canonicalJson (.array [.date none]) = none :=
  ⟨(canonical_encoding _ _).1 (plain_odd (.refl _)) (plain_odd (List.reverse_perm _)),
    (canonical_encoding (.array [.date none]) .null).2.2
      ⟨_, .item List.mem_cons_self (.self _), rfl⟩⟩

end Guardrail
