import GuardrailPlatform.JsonText

/-!
# The canonical form that signatures cover

`canonicalise` sorts object keys at every depth and refuses what JSON would
drop or corrupt; `canonicalJson` is the text of the result.  Two facts carry
every signature argument: values with one canonical text have the same JSON
projection up to member order (`sameProjection_of_canonicalJson`), and a value
that has crossed the JSON codec keeps its canonical text
(`canonicalJson_of_project`).
-/

namespace Guardrail

open Js

mutual

/-- `canonicalise`.  `none` is the throw on a value JSON would not keep. -/
def canonicalise : Value → Option Json
  | .null => some .null
  | .date (some t) => some (.string (toISOString t))
  | .date none => none
  | .array items => (canonicaliseItems items).map Json.array
  | .string s => some (.string s)
  | .bool b => some (.bool b)
  | .number (.finite x) => some (.number x)
  | .number _ => none
  -- the entries are distinct keys, so sorting commutes with canonicalising each value
  | .object members => (canonicaliseMembers members).map (fun ms => .object (arrange ms))
  | .undefined => none
  | .bigint _ => none
  | .symbol => none
  | .function => none

def canonicaliseItems : List Value → Option (List Json)
  | [] => some []
  | v :: vs =>
    match canonicalise v, canonicaliseItems vs with
    | some j, some js => some (j :: js)
    | _, _ => none

def canonicaliseMembers : List (JSString × Value) → Option (List (JSString × Json))
  | [] => some []
  | (k, v) :: ms =>
    match canonicalise v, canonicaliseMembers ms with
    | some j, some js => some ((k, j) :: js)
    | _, _ => none

end

/-- `canonicalJson`: stable stringification. -/
def canonicalJson (value : Value) : Option JSString := (canonicalise value).map render

/-- Two values have the same JSON projection, up to member order. -/
def SameProjection (v w : Value) : Prop :=
  ∃ x y, project v = .json x ∧ project w = .json y ∧ Same x y

theorem canonicaliseItems_cons {v : Value} {vs : List Value} {cs : List Json}
    (h : canonicaliseItems (v :: vs) = some cs) :
    ∃ c cs', canonicalise v = some c ∧ canonicaliseItems vs = some cs' ∧ cs = c :: cs' := by
  rw [canonicaliseItems] at h
  split at h
  · rename_i c cs' hc hcs
    exact ⟨c, cs', hc, hcs, (Option.some.inj h).symm⟩
  · cases h

theorem canonicaliseMembers_cons {k : JSString} {v : Value} {ms : List (JSString × Value)}
    {cs : List (JSString × Json)} (h : canonicaliseMembers ((k, v) :: ms) = some cs) :
    ∃ c cs', canonicalise v = some c ∧ canonicaliseMembers ms = some cs' ∧ cs = (k, c) :: cs' := by
  rw [canonicaliseMembers] at h
  split at h
  · rename_i c cs' hc hcs
    exact ⟨c, cs', hc, hcs, (Option.some.inj h).symm⟩
  · cases h

/-- What can be canonicalised is what JSON keeps: the canonical form is the
projection with its keys sorted, up to the sign of zero. -/
theorem project_of_canonicalise {v : Value} {c : Json} (h : canonicalise v = some c) :
    ∃ p, project v = .json p ∧ c.unsign = p.sortKeys := by
  induction v using Value.ind generalizing c with
  | undefined => simp [canonicalise] at h
  | bigint n => simp [canonicalise] at h
  | symbol => simp [canonicalise] at h
  | function => simp [canonicalise] at h
  | null =>
      obtain rfl := Option.some.inj h
      exact ⟨_, rfl, rfl⟩
  | bool b =>
      obtain rfl := Option.some.inj h
      exact ⟨_, rfl, rfl⟩
  | string s =>
      obtain rfl := Option.some.inj h
      exact ⟨_, rfl, rfl⟩
  | number x =>
      cases x with
      | finite x =>
          obtain rfl := Option.some.inj h
          exact ⟨_, rfl, rfl⟩
      | _ => simp [canonicalise] at h
  | date t =>
      cases t with
      | none => simp [canonicalise] at h
      | some t =>
          obtain rfl := Option.some.inj h
          exact ⟨_, rfl, rfl⟩
  | array items ih =>
      rw [canonicalise, Option.map_eq_some_iff] at h
      obtain ⟨cs, hcs, rfl⟩ := h
      have hitems : ∃ ps, projectItems items = some ps ∧
          cs.map Json.unsign = ps.map Json.sortKeys := by
        induction items generalizing cs with
        | nil =>
            obtain rfl := Option.some.inj hcs
            exact ⟨[], rfl, rfl⟩
        | cons v vs ihvs =>
            obtain ⟨c, cs', hc, hcs', rfl⟩ := canonicaliseItems_cons hcs
            obtain ⟨p, hp, hsort⟩ := ih v List.mem_cons_self hc
            obtain ⟨ps, hps, hsorts⟩ :=
              ihvs (fun w hw => ih w (List.mem_cons_of_mem _ hw)) cs' hcs'
            exact ⟨p :: ps, by rw [projectItems, hp, hps], by
              rw [List.map_cons, hsort, hsorts, List.map_cons]⟩
      obtain ⟨ps, hps, hsorts⟩ := hitems
      refine ⟨.array ps, by rw [project, hps], ?_⟩
      rw [Json.unsign, Json.sortKeys, Json.unsignItems_eq_map, Json.sortItems_eq_map, hsorts]
  | object members ih =>
      rw [canonicalise, Option.map_eq_some_iff] at h
      obtain ⟨cs, hcs, rfl⟩ := h
      have hmembers : ∃ ps, projectMembers members = some ps ∧
          mapValues Json.unsign cs = mapValues Json.sortKeys ps := by
        induction members generalizing cs with
        | nil =>
            obtain rfl := Option.some.inj hcs
            exact ⟨[], rfl, rfl⟩
        | cons m ms ihms =>
            obtain ⟨k, v⟩ := m
            obtain ⟨c, cs', hc, hcs', rfl⟩ := canonicaliseMembers_cons hcs
            obtain ⟨p, hp, hsort⟩ := ih _ List.mem_cons_self hc
            obtain ⟨ps, hps, hsorts⟩ :=
              ihms (fun w hw => ih w (List.mem_cons_of_mem _ hw)) cs' hcs'
            exact ⟨(k, p) :: ps, by rw [projectMembers, hp, hps],
              congrArg₂ List.cons (congrArg _ hsort) hsorts⟩
      obtain ⟨ps, hps, hsorts⟩ := hmembers
      refine ⟨.object ps, by rw [project, hps], ?_⟩
      rw [Json.unsign, Json.sortKeys, Json.unsignMembers_eq, Json.sortMembers_eq,
        mapValues_arrange, hsorts]

/-- **Canonical text is binding.**  Values with one canonical text have the
same JSON projection up to member order. -/
theorem sameProjection_of_canonicalJson {v w : Value} {t : JSString}
    (hv : canonicalJson v = some t) (hw : canonicalJson w = some t) : SameProjection v w := by
  obtain ⟨c, hc, rfl⟩ := Option.map_eq_some_iff.mp hv
  obtain ⟨d, hd, htext⟩ := Option.map_eq_some_iff.mp hw
  obtain ⟨p, hp, hcp⟩ := project_of_canonicalise hc
  obtain ⟨q, hq, hdq⟩ := project_of_canonicalise hd
  exact ⟨p, q, hp, hq, same_of_sortKeys_eq (by rw [← hcp, ← hdq, render_injective htext])⟩

/-! ## Across the codec -/

/-- A value that came from JSON canonicalises to the same JSON with the keys of its objects
sorted. -/
theorem canonicalise_toValue (j : Json) : canonicalise j.toValue = some j.sortKeys := by
  induction j using Json.ind with
  | null => rfl
  | bool b => rfl
  | number x => rfl
  | string s => rfl
  | array items ih =>
      have hitems : canonicaliseItems (Json.toValues items) = some (Json.sortItems items) := by
        induction items with
        | nil => rfl
        | cons j js ihjs =>
            rw [Json.toValues, canonicaliseItems, ih j List.mem_cons_self,
              ihjs (fun i hi => ih i (List.mem_cons_of_mem _ hi)), Json.sortItems]
      rw [Json.toValue, canonicalise, hitems, Json.sortKeys]
      rfl
  | object members ih =>
      have hmembers : canonicaliseMembers (Json.toMembers members) =
          some (Json.sortMembers members) := by
        induction members with
        | nil => rfl
        | cons m ms ihms =>
            obtain ⟨k, j⟩ := m
            rw [Json.toMembers, canonicaliseMembers, ih _ List.mem_cons_self,
              ihms (fun n hn => ih n (List.mem_cons_of_mem _ hn)), Json.sortMembers]
      rw [Json.toValue, canonicalise, hmembers, Json.sortKeys]
      rfl

/-- Every JSON has a canonical text, the one it is rendered to once its keys are sorted. -/
theorem canonicalJson_toValue (j : Json) : canonicalJson j.toValue = some (render j.sortKeys) := by
  rw [canonicalJson, canonicalise_toValue, Option.map_some]

/-- JSON data projects to itself, except that a negative zero loses its sign on the way. -/
theorem project_toValue (j : Json) : project j.toValue = .json j.unsign := by
  induction j using Json.ind with
  | null => rfl
  | bool b => rfl
  | number x => rfl
  | string s => rfl
  | array items ih =>
      have hitems : projectItems (Json.toValues items) = some (Json.unsignItems items) := by
        induction items with
        | nil => rfl
        | cons j js ihjs =>
            rw [Json.toValues, projectItems, ih j List.mem_cons_self,
              ihjs (fun i hi => ih i (List.mem_cons_of_mem _ hi)), Json.unsignItems]
      rw [Json.toValue, project, hitems, Json.unsign]
  | object members ih =>
      have hmembers : projectMembers (Json.toMembers members) =
          some (Json.unsignMembers members) := by
        induction members with
        | nil => rfl
        | cons m ms ihms =>
            obtain ⟨k, j⟩ := m
            rw [Json.toMembers, projectMembers, ih _ List.mem_cons_self,
              ihms (fun n hn => ih n (List.mem_cons_of_mem _ hn)), Json.unsignMembers]
      rw [Json.toValue, project, hmembers, Json.unsign]

/-- The rendered text of a JSON does not show the sign that a zero in it had. -/
theorem render_unsign (j : Json) : render j.unsign = render j := by
  induction j using Json.ind with
  | null => rfl
  | bool b => rfl
  | number x => exact numberText_unsignZero x
  | string s => rfl
  | array items ih =>
      have hmore : ∀ js ⊆ items, renderMoreItems (Json.unsignItems js) = renderMoreItems js := by
        intro js hjs
        induction js with
        | nil => rfl
        | cons j js ihjs =>
            rw [List.cons_subset] at hjs
            rw [Json.unsignItems, renderMoreItems, renderMoreItems, ih j hjs.1, ihjs hjs.2]
      cases items with
      | nil => rfl
      | cons j js =>
          rw [Json.unsign, Json.unsignItems, render, render, renderItems, renderItems,
            ih j List.mem_cons_self, hmore js (List.subset_cons_self j js)]
  | object members ih =>
      have hmore : ∀ ms ⊆ members,
          renderMoreMembers (Json.unsignMembers ms) = renderMoreMembers ms := by
        intro ms hms
        induction ms with
        | nil => rfl
        | cons m ms ihms =>
            obtain ⟨k, j⟩ := m
            rw [List.cons_subset] at hms
            rw [Json.unsignMembers, renderMoreMembers, renderMoreMembers, ih _ hms.1, ihms hms.2]
      cases members with
      | nil => rfl
      | cons m ms =>
          obtain ⟨k, j⟩ := m
          rw [Json.unsign, Json.unsignMembers, render, render, renderMembers, renderMembers,
            ih _ List.mem_cons_self, hmore ms (List.subset_cons_self _ ms)]

/-- **Canonical text survives the codec.**  What was canonicalised and sent as
JSON canonicalises to the same text where it arrives. -/
theorem canonicalJson_of_project {v : Value} {t : JSString} {p : Json}
    (ht : canonicalJson v = some t) (hp : project v = .json p) :
    canonicalJson p.toValue = some t := by
  obtain ⟨c, hc, rfl⟩ := Option.map_eq_some_iff.mp ht
  obtain ⟨q, hq, hcq⟩ := project_of_canonicalise hc
  obtain rfl : p = q := by
    rw [hp] at hq
    exact Serialized.json.inj hq
  rw [canonicalJson, canonicalise_toValue, ← hcq, Option.map_some, render_unsign]

/-! ## Records -/

/-- What the canonical text keeps of a JSON value. -/
def signedForm (j : Json) : Json := j.sortKeys.unsign

/-- An object is signed with its keys arranged, and its values as they are
signed. -/
theorem signedForm_object (ms : List (JSString × Json)) :
    signedForm (.object ms) = .object (arrange (mapValues signedForm ms)) := by
  rw [signedForm, Json.sortKeys, Json.unsign, Json.unsignMembers_eq, Json.sortMembers_eq,
    mapValues_arrange]
  congr 2
  rw [mapValues, mapValues, List.map_map]
  rfl

/-- Two JSON values with the same canonical text have the same signed form, so a MAC does
not tell them apart. -/
theorem signedForm_eq {x y : Json} (h : canonicalJson x.toValue = canonicalJson y.toValue) :
    signedForm x = signedForm y := by
  rw [canonicalJson_toValue, canonicalJson_toValue] at h
  exact render_injective (Option.some.inj h)

/-- The members of two records with one canonical text are the same, in some order. -/
theorem record_perm {ms ns : List (JSString × Json)}
    (h : canonicalJson (Json.object ms).toValue = canonicalJson (Json.object ns).toValue) :
    (mapValues signedForm ms).Perm (mapValues signedForm ns) := by
  have hform := signedForm_eq h
  rw [signedForm_object, signedForm_object, Json.object.injEq] at hform
  exact (arrange_perm _).symm.trans ((List.Perm.of_eq hform).trans (arrange_perm _))

/-- **Records.**  Records with the same distinct keys and one canonical text
agree member by member. -/
theorem record_injective {ms ns : List (JSString × Json)}
    (h : canonicalJson (Json.object ms).toValue = canonicalJson (Json.object ns).toValue)
    (hkeys : ms.map Prod.fst = ns.map Prod.fst) (hnodup : (ms.map Prod.fst).Nodup) :
    mapValues signedForm ms = mapValues signedForm ns := by
  refine eq_of_perm_of_keys ?_ ?_ (record_perm h)
  · rw [mapValues_keys, mapValues_keys, hkeys]
  · rwa [mapValues_keys]

end Guardrail
