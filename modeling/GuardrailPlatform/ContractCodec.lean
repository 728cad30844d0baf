import GuardrailPlatform.Contracts
import GuardrailPlatform.SchemaInputs

/-!
# The contracts and the codec

Every schema of every contract parses its own output again, and every output
schema takes what arrives of its answer to that answer.
-/

namespace Guardrail

open Js

/-! ## Every contract -/

/-- A zero is the same integer whether it carries its sign or not. -/
theorem toInt?_unsignZero (x : Finite) : x.unsignZero.toInt? = x.toInt? := by
  cases x <;> rfl

/-- Both schemas parse what they answer.  No output is `undefined`, no input
holds a date or a negative zero. -/
structure ContractSchemas.Stable (formats : Formats) (schemas : ContractSchemas) : Prop where
  input : schemas.input.Stable formats.newDate
  isInput : schemas.input.isInput = true
  dateless : ∀ t, schemas.input.mayHold (.date (some t)) = false
  exact : schemas.input.Exact
  output : schemas.output.Stable formats.newDate
  defined : schemas.output.mayHold .undefined = false

section Stability

variable (formats : Formats)

/-- A bounded integer is sent as it is, and the answer parses to the same again. -/
theorem intBetween_stable (least most : ℤ) : (intBetween least most).Stable formats.newDate := by
  intro x
  dsimp only
  rw [toInt?_unsignZero]

/-- A bounded integer that is positive is never a zero, so it crosses the codec exactly. -/
theorem intBetween_exact {least : ℤ} (h : 0 < least) (most : ℤ) : (intBetween least most).Exact := by
  apply exact_number
  intro negative
  have hzero : (Finite.zero negative).toInt? = some 0 := rfl
  rw [hzero, Option.any_some, decide_eq_false_iff_not]
  omega

/-- A bounded integer with a default is stable where the default lies within the bounds. -/
theorem default_stable {least most value : ℤ} (h : least ≤ value ∧ value ≤ most) :
    (Schema.withDefault (intBetween least most) (.number (.finite (.ofInt value)))).Stable
      formats.newDate := by
  refine ⟨intBetween_stable formats least most, ?_, ?_⟩
  · rw [intBetween_parse, if_pos h]
  · intro v w hparse
    obtain ⟨x, -, rfl, -⟩ := parse_number_eq_some.mp hparse
    rfl

/-- A default inside its own bounds crosses exactly, as a value that was given
does. -/
theorem default_exact {least most value : ℤ} (hleast : 0 < least)
    (h : least ≤ value ∧ value ≤ most) :
    (Schema.withDefault (intBetween least most) (.number (.finite (.ofInt value)))).Exact := by
  apply exact_withDefault (intBetween_exact hleast most)
  rw [intBetween_parse, if_pos h]

/-- Trimming leaves a trimmed text as it is: it neither begins nor ends with a unit
that is trimmed. -/
theorem trim_trim (s : JSString) : trim (trim s) = trim s := by
  have hfront : (trim s).dropWhile isTrimmed = trim s := by
    apply List.dropWhile_eq_self_iff.mpr
    intro hpos htrimmed
    -- the trimmed text is a prefix of the one trimmed in front
    have hprefix : trim s <+: s.dropWhile isTrimmed := List.rdropWhile_prefix isTrimmed _
    obtain ⟨rest, hrest⟩ := hprefix
    have hhead : (s.dropWhile isTrimmed)[0]? = some ((trim s)[0]) := by
      rw [← hrest, List.getElem?_append_left hpos, List.getElem?_eq_getElem hpos]
    have hnot := List.dropWhile_get_zero_not isTrimmed s (by
      rw [← hrest, List.length_append]
      omega)
    obtain ⟨_, hget⟩ := List.getElem?_eq_some_iff.mp hhead
    rw [List.get_eq_getElem] at hnot
    exact hnot (by rw [hget]; exact htrimmed)
  have hback : (trim s).reverse.dropWhile isTrimmed = (trim s).reverse := by
    rw [trim, List.reverse_reverse, List.dropWhile_idempotent]
  rw [trim, hfront, hback, List.reverse_reverse]

/-- A trimmed URL is a URL that trimming leaves alone, so it is parsed again. -/
theorem urlText_stable : (urlText formats.isUrl).Stable formats.newDate := by
  intro s t h
  obtain ⟨hurl, ht⟩ := Option.ite_none_right_eq_some.mp h
  obtain rfl := Option.some.inj ht
  dsimp only
  rw [trim_trim, if_pos hurl]

theorem text_exact : text.Exact := exact_string _

/-- The keys of an object schema are told apart by evaluating them. -/
theorem distinct_keys {fields : List (JSString × Schema)}
    (h : decide (fields.map Prod.fst).Nodup = true) : (fields.map Prod.fst).Nodup :=
  of_decide_eq_true h

/-- The answer of a deletion, which is a record of one text, survives the codec. -/
theorem idDto_stable : idDto.Stable formats.newDate := ⟨distinct_keys rfl, trivial, trivial⟩

/-- An object schema without fields is stable: there is nothing the codec could lose. -/
theorem emptyInput_stable : emptyInput.Stable formats.newDate := ⟨List.nodup_nil, trivial⟩

theorem idDto_exact : idDto.Exact := exact_object ⟨text_exact, trivial⟩

theorem emptyInput_exact : emptyInput.Exact := exact_object trivial

/-- A project's answer is parsed again after the codec, its dates read back. -/
theorem projectDto_stable : (projectDto formats).Stable formats.newDate :=
  ⟨distinct_keys rfl, trivial, trivial, trivial, trivial, rfl, rfl, trivial⟩

/-- A member's answer is parsed again after the codec, its dates read back. -/
theorem memberDto_stable : (memberDto formats).Stable formats.newDate :=
  ⟨distinct_keys rfl, trivial, trivial, trivial, trivial, trivial, rfl, trivial⟩

/-- An organisation's answer is parsed again after the codec, its creation date read back.
-/
theorem organizationDto_stable : (organizationDto formats).Stable formats.newDate :=
  ⟨distinct_keys rfl, trivial, trivial, trivial, trivial, rfl, intBetween_stable formats _ _, trivial⟩

/-- A snapshot of entitlements is parsed to the same again after it has crossed the codec.
-/
theorem entitlementsDto_stable : entitlementsDto.Stable formats.newDate :=
  ⟨distinct_keys rfl, trivial, fun _ => rfl, trivial⟩

/-- A member is there or not whatever the signs of zeros are. -/
theorem isUndefined_member?_unsigned (v : Value) (key : JSString) :
    ((v.unsigned.member? key).any fun w => !w.isUndefined) =
      (v.member? key).any fun w => !w.isUndefined := by
  cases v with
  | object members =>
      rw [Value.unsigned, Value.unsignedMembers_eq]
      show (((members.map fun m => (m.1, m.2.unsigned)).lookup key).any _) = _
      rw [lookup_map_snd, Option.any_map]
      congr 1
      funext w
      exact congrArg (!·) w.isUndefined_unsigned
  | number x => cases x <;> rfl
  | _ => rfl

/-- Whether a patch changes anything does not depend on the signs of zeros. -/
theorem changesSomething_unsigned (v : Value) : changesSomething v.unsigned = changesSomething v := by
  simp only [changesSomething, isUndefined_member?_unsigned]

variable {formats} {operation : Operation} {schemas : ContractSchemas}

/-- Both schemas of each organisation operation survive the codec, the refined update among
them. -/
theorem organizationContract_stable (h : organizationContract formats operation = some schemas) :
    schemas.Stable formats := by
  cases operation with
  | read =>
      obtain rfl := Option.some.inj h
      exact ⟨emptyInput_stable formats, rfl, fun _ => rfl, emptyInput_exact, organizationDto_stable formats, rfl⟩
  | create =>
      obtain rfl := Option.some.inj h
      exact ⟨⟨distinct_keys rfl, trivial, trivial, trivial⟩, rfl, fun _ => rfl,
        exact_object ⟨exact_string _, exact_string _, trivial⟩, organizationDto_stable formats, rfl⟩
  | update =>
      obtain rfl := Option.some.inj h
      have hexact : (Schema.object [(str "name", .optional (textBetween 2 64)),
          (str "slug", .optional (.string isOrganizationSlug))]).Exact :=
        exact_object ⟨exact_optional (exact_string _), exact_optional (exact_string _), trivial⟩
      exact ⟨⟨⟨distinct_keys rfl, trivial, trivial, trivial⟩, changesSomething_unsigned⟩, rfl, fun _ => rfl,
        exact_refine hexact, organizationDto_stable formats, rfl⟩
  | delete =>
      obtain rfl := Option.some.inj h
      exact ⟨emptyInput_stable formats, rfl, fun _ => rfl, emptyInput_exact, idDto_stable formats, rfl⟩
  | manage => cases h

/-- Both schemas of the one operation that `membership` declares survive the codec. -/
theorem membershipContract_stable (h : membershipContract operation = some schemas) :
    schemas.Stable formats := by
  cases operation with
  | delete =>
      obtain rfl := Option.some.inj h
      exact ⟨emptyInput_stable formats, rfl, fun _ => rfl, emptyInput_exact, idDto_stable formats, rfl⟩
  | _ => cases h

/-- Both schemas of each project operation survive the codec, the listing's defaults among
them. -/
theorem projectContract_stable (h : projectContract formats operation = some schemas) :
    schemas.Stable formats := by
  cases operation with
  | read =>
      obtain rfl := Option.some.inj h
      have hflag : (Schema.withDefault .boolean (.bool false)).Stable formats.newDate := by
        refine ⟨trivial, rfl, ?_⟩
        intro v w hparse
        cases v with
        | bool b =>
            obtain rfl := Option.some.inj hparse
            rfl
        | _ => cases hparse
      have hlimit := default_stable formats (show (1 : ℤ) ≤ 20 ∧ (20 : ℤ) ≤ 100 by decide)
      exact ⟨⟨distinct_keys rfl, trivial, hlimit, hflag, trivial⟩, rfl, fun _ => rfl,
        exact_object ⟨exact_optional (exact_nullable text_exact),
          default_exact (by decide) (by decide), exact_withDefault exact_boolean rfl, trivial⟩,
        ⟨distinct_keys rfl, projectDto_stable formats, trivial, trivial⟩, rfl⟩
  | create =>
      obtain rfl := Option.some.inj h
      exact ⟨⟨distinct_keys rfl, trivial, trivial, trivial, trivial⟩, rfl, fun _ => rfl,
        exact_object ⟨exact_string _, exact_string _, exact_optional (exact_string _), trivial⟩,
        projectDto_stable formats, rfl⟩
  | update =>
      obtain rfl := Option.some.inj h
      exact ⟨⟨distinct_keys rfl, trivial, trivial, trivial, trivial, trivial⟩, rfl, fun _ => rfl,
        exact_object ⟨text_exact, exact_optional (exact_string _),
          exact_optional (exact_nullable (exact_string _)), exact_optional exact_boolean, trivial⟩,
        projectDto_stable formats, rfl⟩
  | delete =>
      obtain rfl := Option.some.inj h
      exact ⟨idDto_stable formats, rfl, fun _ => rfl, idDto_exact, idDto_stable formats, rfl⟩
  | manage => cases h

/-- Both schemas of each member operation survive the codec, whichever operation has a
contract. -/
theorem memberContract_stable (h : memberContract formats operation = some schemas) :
    schemas.Stable formats := by
  cases operation with
  | read =>
      obtain rfl := Option.some.inj h
      exact ⟨emptyInput_stable formats, rfl, fun _ => rfl, emptyInput_exact,
        ⟨distinct_keys rfl, memberDto_stable formats, trivial⟩, rfl⟩
  | create =>
      obtain rfl := Option.some.inj h
      exact ⟨⟨distinct_keys rfl, trivial, trivial, trivial⟩, rfl, fun _ => rfl,
        exact_object ⟨exact_string _, exact_enum _, trivial⟩,
        ⟨distinct_keys rfl, trivial, trivial, trivial⟩, rfl⟩
  | update =>
      obtain rfl := Option.some.inj h
      exact ⟨⟨distinct_keys rfl, trivial, trivial, trivial⟩, rfl, fun _ => rfl,
        exact_object ⟨text_exact, exact_enum _, trivial⟩, memberDto_stable formats, rfl⟩
  | delete =>
      obtain rfl := Option.some.inj h
      exact ⟨⟨distinct_keys rfl, trivial, trivial⟩, rfl, fun _ => rfl, exact_object ⟨text_exact, trivial⟩,
        idDto_stable formats, rfl⟩
  | manage => cases h

/-- Both schemas of each invitation operation survive the codec, whichever operation has a
contract. -/
theorem invitationContract_stable (h : invitationContract formats operation = some schemas) :
    schemas.Stable formats := by
  cases operation with
  | read =>
      obtain rfl := Option.some.inj h
      exact ⟨emptyInput_stable formats, rfl, fun _ => rfl, emptyInput_exact,
        ⟨distinct_keys rfl, ⟨distinct_keys rfl, trivial, trivial, trivial, trivial, rfl, trivial⟩, trivial⟩, rfl⟩
  | delete =>
      obtain rfl := Option.some.inj h
      exact ⟨idDto_stable formats, rfl, fun _ => rfl, idDto_exact, idDto_stable formats, rfl⟩
  | _ => cases h

/-- Both schemas of each billing operation survive the codec, the trimmed URL among them. -/
theorem billingContract_stable (h : billingContract formats operation = some schemas) :
    schemas.Stable formats := by
  cases operation with
  | read =>
      obtain rfl := Option.some.inj h
      exact ⟨emptyInput_stable formats, rfl, fun _ => rfl, emptyInput_exact,
        ⟨distinct_keys rfl, entitlementsDto_stable formats,
          ⟨distinct_keys rfl, trivial, trivial, trivial, trivial⟩, trivial⟩, rfl⟩
  | manage =>
      obtain rfl := Option.some.inj h
      exact ⟨⟨distinct_keys rfl, trivial, urlText_stable formats, trivial⟩, rfl, fun _ => rfl,
        exact_object ⟨exact_enum _, exact_rewritten _, trivial⟩,
        ⟨distinct_keys rfl, trivial, trivial⟩, rfl⟩
  | _ => cases h

/-- Both schemas of the one operation that the audit log declares survive the codec. -/
theorem auditContract_stable (h : auditContract formats operation = some schemas) :
    schemas.Stable formats := by
  cases operation with
  | read =>
      obtain rfl := Option.some.inj h
      have hlimit := default_stable formats (show (1 : ℤ) ≤ 50 ∧ (50 : ℤ) ≤ 200 by decide)
      exact ⟨⟨distinct_keys rfl, hlimit, trivial, trivial⟩, rfl, fun _ => rfl,
        exact_object ⟨default_exact (by decide) (by decide), exact_optional text_exact, trivial⟩,
        ⟨distinct_keys rfl, ⟨distinct_keys rfl, trivial, trivial, trivial, trivial, trivial, trivial, rfl, trivial⟩,
          trivial⟩, rfl⟩
  | _ => cases h

/-- Every contract of the map survives the codec, resource by resource and operation by
operation. -/
theorem contracts_stable {resource : ResourceKey}
    (h : contractFor? formats resource operation = some schemas) : schemas.Stable formats := by
  obtain ⟨contract, hcontract, hschemas⟩ := Option.bind_eq_some_iff.mp h
  have hmem := mem_of_lookup hcontract
  simp only [contracts, List.mem_cons, List.not_mem_nil, or_false, Prod.mk.injEq] at hmem
  rcases hmem with ⟨-, rfl⟩ | ⟨-, rfl⟩ | ⟨-, rfl⟩ | ⟨-, rfl⟩ | ⟨-, rfl⟩ | ⟨-, rfl⟩ | ⟨-, rfl⟩
  · exact organizationContract_stable hschemas
  · exact membershipContract_stable hschemas
  · exact projectContract_stable hschemas
  · exact memberContract_stable hschemas
  · exact invitationContract_stable hschemas
  · exact billingContract_stable hschemas
  · exact auditContract_stable hschemas

end Stability

/-! ## From the service to the gateway -/

/-- The bytes of the value decode to something that parses to it, but for the
sign of zeros. -/
def SurvivesCodec (parse : Value → Option Value) (v : Value) : Prop :=
  ∃ j, encode v = some j ∧ parse j.toValue = some v.unsigned

/-- A value that makes the round trip is accepted at the far end as what it was. -/
theorem survivesCodec_of_roundTrips {schema : Schema} {v : Value} {j : Json}
    (h : RoundTrips schema v j) : SurvivesCodec schema.parse v :=
  ⟨j, by rw [encode, h.sent], h.parsed⟩

/-- **What a service answers is what the gateway reads**: for any schema of the
contracts' shapes, and for the output of every operation. -/
theorem outputs_round_trip (formats : Formats) :
    (∀ schema : Schema, schema.Stable formats.newDate → schema.mayHold .undefined = false →
      ∀ r v, schema.parse r = some v →
        (∀ t, Inside (.date (some t)) v → ReadsBack formats t) → SurvivesCodec schema.parse v) ∧
    ∀ resource operation r v, (contractFor formats resource operation).output r = some v →
      (∀ t, Inside (.date (some t)) v → ReadsBack formats t) →
        SurvivesCodec (contractFor formats resource operation).output v := by
  constructor
  · intro schema hstable hdefined r v hparse hdates
    obtain ⟨j, hj⟩ := Schema.output_codec hstable hdefined hparse hdates
    exact survivesCodec_of_roundTrips hj
  · intro resource operation r v hparse hdates
    unfold contractFor at hparse ⊢
    split at hparse
    · rename_i schemas hschemas
      have hstable := contracts_stable hschemas
      obtain ⟨j, hj⟩ := Schema.output_codec hstable.output hstable.defined hparse hdates
      exact survivesCodec_of_roundTrips hj
    · cases hparse

section Demonstration

/-- A project, as `project.create` answers it. -/
def launchDto : Value :=
  .object [(str "id", .string (str "p1")), (str "name", .string (str "Launch")),
    (str "slug", .string (str "launch")), (str "description", .null), (str "archivedAt", .null),
    (str "createdAt", .date (some epoch))]

/-- A project created at the epoch is accepted by the gateway as the service
answered it. -/
theorem launchDto_survives :
    SurvivesCodec (contractFor (readingBack [epoch]) (str "project") .create).output launchDto := by
  refine (outputs_round_trip (readingBack [epoch])).2 _ _ launchDto launchDto rfl ?_
  intro t hinside
  cases hinside with
  | member hmem hinside =>
      simp only [List.mem_cons, List.not_mem_nil, or_false] at hmem
      rcases hmem with rfl | rfl | rfl | rfl | rfl | rfl <;> cases hinside
      rfl

end Demonstration

end Guardrail
