import GuardrailPlatform.ContractCodec
import GuardrailPlatform.Handlers
import GuardrailPlatform.HonestMessages

/-!
# The input a handler receives

A raw input is parsed where it enters, again by `dispatch`, and once more by the
handler, with a signer and the JSON codec in between.  Parsing is idempotent
and the codec keeps what it can carry, so the handler runs on the value of the
first parse, unless there is no message at all: the parser keeps an optional
key that is spelled out as `undefined`, and the signer throws on it.
-/

namespace Guardrail

open Js

/-! ## What can be signed -/

/-- What is inside an array is the array or inside an element. -/
theorem inside_array_iff {u : Value} {items : List Value} :
    Inside u (.array items) ↔ u = .array items ∨ ∃ v ∈ items, Inside u v := by
  constructor
  · intro h
    cases h with
    | self => exact .inl rfl
    | item hmem hinside => exact .inr ⟨_, hmem, hinside⟩
  · rintro (rfl | ⟨v, hmem, hinside⟩)
    · exact .self _
    · exact .item hmem hinside

/-- What is inside an object is the object or inside a member. -/
theorem inside_object_iff {u : Value} {members : List (JSString × Value)} :
    Inside u (.object members) ↔ u = .object members ∨ ∃ m ∈ members, Inside u m.2 := by
  constructor
  · intro h
    cases h with
    | self => exact .inl rfl
    | member hmem hinside => exact .inr ⟨_, hmem, hinside⟩
  · rintro (rfl | ⟨m, hmem, hinside⟩)
    · exact .self _
    · exact .member hmem hinside

/-- An array has a canonical form exactly where each of its elements does. -/
theorem canonicaliseItems_isSome (items : List Value) :
    (canonicaliseItems items).isSome = true ↔ ∀ v ∈ items, (canonicalise v).isSome = true := by
  induction items with
  | nil => simp [canonicaliseItems]
  | cons v vs ih =>
      rw [List.forall_mem_cons, ← ih, canonicaliseItems]
      cases canonicalise v <;> cases canonicaliseItems vs <;> simp

/-- An object has a canonical form exactly where each of its members does. -/
theorem canonicaliseMembers_isSome (members : List (JSString × Value)) :
    (canonicaliseMembers members).isSome = true ↔
      ∀ m ∈ members, (canonicalise m.2).isSome = true := by
  induction members with
  | nil => simp [canonicaliseMembers]
  | cons m ms ih =>
      obtain ⟨k, v⟩ := m
      rw [List.forall_mem_cons, ← ih, canonicaliseMembers]
      cases canonicalise v <;> cases canonicaliseMembers ms <;> simp

/-- The signer canonicalises a value exactly where everything inside of it is data, and
throws elsewhere. -/
theorem canonicalise_isSome_iff (v : Value) :
    (canonicalise v).isSome = true ↔ ∀ u, Inside u v → u.isData = true := by
  induction v using Value.ind with
  | array items ih =>
      rw [canonicalise, Option.isSome_map, canonicaliseItems_isSome]
      constructor
      · intro h u hinside
        rcases inside_array_iff.mp hinside with rfl | ⟨v, hmem, hinside⟩
        · rfl
        · exact (ih v hmem).mp (h v hmem) u hinside
      · intro h v hmem
        exact (ih v hmem).mpr fun u hinside => h u (.item hmem hinside)
  | object members ih =>
      rw [canonicalise, Option.isSome_map, canonicaliseMembers_isSome]
      constructor
      · intro h u hinside
        rcases inside_object_iff.mp hinside with rfl | ⟨m, hmem, hinside⟩
        · rfl
        · exact (ih m hmem).mp (h m hmem) u hinside
      · intro h m hmem
        exact (ih m hmem).mpr fun u hinside => h u (.member hmem hinside)
  | number x =>
      constructor
      · intro h u hinside
        cases hinside
        cases x <;> first | rfl | cases h
      · intro h
        have hself := h _ (.self _)
        cases x <;> first | rfl | cases hself
  | date t =>
      constructor
      · intro h u hinside
        cases hinside
        cases t <;> first | rfl | cases h
      · intro h
        have hself := h _ (.self _)
        cases t <;> first | rfl | cases hself
  | _ =>
      constructor
      · intro h u hinside
        cases hinside
        first | rfl | cases h
      · intro h
        have hself := h _ (.self _)
        first | rfl | cases hself

section Parsed

variable {formats : Formats} {schemas : ContractSchemas} {raw v : Value}

/-- An accepted input can be signed where no optional key of it is spelled out. -/
theorem signable_iff (hstable : schemas.Stable formats) (hinput : schemas.input.parse raw = some v) :
    (canonicalise v).isSome = true ↔ ¬ schemas.input.spellsUndefined raw := by
  rw [canonicalise_isSome_iff, ← inside_undefined_iff hstable.input hstable.isInput hinput]
  constructor
  · intro h hinside
    have hundefined := h _ hinside
    cases hundefined
  · intro h u hinside
    rcases isData_of_mayHold (mayHold_of_inside hstable.input hinput hinside) with hdata | rfl
    · exact hdata
    · exact (h hinside).elim

/-- A parsed input without a spelled out `undefined` is sent as JSON, and what arrives
parses to the input itself. -/
theorem input_codec (hstable : schemas.Stable formats) (hinput : schemas.input.parse raw = some v)
    (hspelled : ¬ schemas.input.spellsUndefined raw) :
    ∃ p, project v = .json p ∧ schemas.input.parse p.toValue = some v := by
  have htravels : v.Travels formats.newDate := by
    constructor
    · rwa [inside_undefined_iff hstable.input hstable.isInput hinput]
    · intro t hinside
      have hdate := mayHold_of_inside hstable.input hinput hinside
      rw [hstable.dateless] at hdate
      cases hdate
  obtain ⟨p, hp⟩ := Schema.parse_toValue hstable.input hinput htravels
  refine ⟨p, hp.sent, ?_⟩
  rw [hp.parsed, hstable.exact raw v hinput]

end Parsed

/-! ## From `dispatch` to the handler -/

/-- Every gate of `dispatch` before the contract's passes. -/
structure GatesPass (args : DispatchArgs) (deps : DepsAnswers) (identity : GatewayIdentity)
    (rule : OperationRule) : Prop where
  declared : registry.ruleFor args.resource args.operation = some rule
  identified : deps.identity = some identity
  orgId : 1 ≤ identity.orgId.length
  role : roleAtLeast identity.role rule.minRole = true
  unescalated : refusedRole args.input identity.role = none
  rate : deps.verdict.ok = true
  inPlan : planGate registry args.resource rule deps.entitlements = none

/-- On this body the handler's logic runs on the input of the call, whatever the logic. -/
def Receives (formats : Formats) (args : DispatchArgs) (payload : Value) : Prop :=
  ∀ (flatten : ResourceKey → Operation → Value → Value) (run : Logic) (ctx : ServiceContext)
    (ambient : Ambient),
    (handlerFor formats flatten args.resource args.operation run).execute ctx payload ambient =
      (run ctx args.input ambient).bind
        (parseOutput (contractFor formats args.resource args.operation))

section Fidelity

variable (crypto : Crypto) (secret : JSString) (formats : Formats) (args : DispatchArgs)
  (deps : DepsAnswers) (rule : OperationRule)

/-- The envelope `e` is signed and sent, its payload as `p`, and the handler
behind it runs on the input of the call. -/
structure Fidelity (e : Envelope) (p : Json) : Prop where
  signed : prepare crypto secret registry (contractFor formats) args deps = .ok e
  sent : encode e.toValue = some (e.wire p)
  /-- A service that admits the message hands on this body. -/
  carried : ∀ (rt : ServiceRuntime registry Handling) (subject : JSString) (now : ℤ)
    (b : Binding Handling) (m : RequestMeta) (payload : Value),
    screen crypto secret rt (e.wire p) subject now = .admitted b m payload →
      m = e.requestMeta ∧ payload = p.toValue
  /-- The service that owns the resource does, if it gets the message in time. -/
  admitted : ∀ (rt : ServiceRuntime registry Handling) (t now : ℤ),
    registry.ownerOf args.resource = some rt.service →
    HonestCall crypto secret registry (contractFor formats) args deps e → ClocksSafe e →
    Arrives e rule.transport t now →
      ∃ b, screen crypto secret rt (e.wire p) (dispatchSubject rule args.resource args.operation)
          now = .admitted b e.requestMeta p.toValue ∧
        b.entry.resource = args.resource ∧ b.entry.operation = args.operation
  received : Receives formats args p.toValue

/-- **Fidelity.**  The call reaches its handler, with the input it was made with. -/
def Delivered : Prop := ∃ e p, Fidelity crypto secret formats args deps rule e p

variable {crypto secret formats args deps rule}

/-- A service receives what its own input schema makes of the payload. -/
theorem receives_of_parse {schemas : ContractSchemas} {payload : Value}
    (hschemas : contractFor? formats args.resource args.operation = some schemas)
    (h : schemas.input.parse payload = some args.input) : Receives formats args payload := by
  intro flatten run ctx ambient
  have hinput : (contractFor formats args.resource args.operation).input payload =
      some args.input := by
    rw [contractFor, hschemas]
    exact h
  exact handlerFor_accepts hinput

/-- **Input fidelity**, exactly: an accepted input whose call passes the gates
reaches its handler unless it spells an optional key out as `undefined`. -/
theorem delivered_iff {identity : GatewayIdentity} {schemas : ContractSchemas} {raw : Value}
    (hschemas : contractFor? formats args.resource args.operation = some schemas)
    (hinput : schemas.input.parse raw = some args.input)
    (hpass : GatesPass args deps identity rule) :
    Delivered crypto secret formats args deps rule ↔ ¬ schemas.input.spellsUndefined raw := by
  have hstable := contracts_stable hschemas
  have hagain : (contractFor formats args.resource args.operation).input args.input =
      some args.input := by
    rw [contractFor, hschemas]
    exact Schema.parse_parse hstable.input hinput
  constructor
  · intro h
    obtain ⟨e, p, hfidelity⟩ := h
    obtain ⟨identity', rule', hprepared⟩ := prepared_of_prepare hfidelity.signed
    have hpayload : e.payload = args.input :=
      Option.some.inj (hprepared.payload.symm.trans hagain)
    rw [← signable_iff hstable hinput, ← hpayload]
    exact canonicalise_of_sign (s := .envelope .request e.requestMeta e.payload) hprepared.signed
  · intro hspelled
    obtain ⟨c, hc⟩ := Option.isSome_iff_exists.mp ((signable_iff hstable hinput).mpr hspelled)
    obtain ⟨p, hp, hback⟩ := input_codec hstable hinput hspelled
    have htext : canonicalJson args.input = some (render c) := by rw [canonicalJson, hc]; rfl
    obtain ⟨signature, hsign⟩ := @Statement.sign_isSome crypto
      (.envelope .request (metaFor registry args identity rule deps) args.input) _ htext secret
    have hprepare := prepare_of_passes hpass.declared hpass.identified hpass.orgId hpass.role
      hpass.unescalated hpass.rate hpass.inPlan hagain hsign
    refine ⟨_, p, hprepare, encode_envelope hp, fun _ _ _ _ _ _ => carried_of_screen, ?_,
      receives_of_parse hschemas hback⟩
    intro rt t now howner hcall hsafe harrives
    obtain ⟨raw', p', b, hraw, hp', hscreen, hentry⟩ := request_admitted hcall hsafe hpass.declared
      (registry_timeouts_positive _ _ _ hpass.declared) howner harrives
    obtain rfl := Serialized.json.inj (hp.symm.trans hp')
    obtain rfl := Option.some.inj (hraw.symm.trans (encode_envelope hp))
    exact ⟨b, hscreen, hentry⟩

end Fidelity

/-! ## Two ways to say that there is no cursor -/

section Demonstration

/-- A `project.read` whose cursor is spelled out. -/
def listing (cursor : Value) : Value :=
  .object [(str "cursor", cursor), (str "limit", .number (.finite (.ofInt 20))),
    (str "includeArchived", .bool false)]

def listingCall (cursor : Value) : DispatchArgs :=
  { requestId := str "request-1", resource := str "project", operation := .read,
    input := listing cursor }

def memberIdentity : GatewayIdentity := { userId := str "ada", orgId := str "acme", role := .member }

def memberAnswers : DepsAnswers :=
  { identity := some memberIdentity
    verdict := { ok := true, retryAfterSeconds := 0 }
    entitlements := { plan := str "free", usage := fun _ => none }
    issuedAt := 1 }

/-- The gates let the example's listing of projects through, whatever cursor it carries. -/
theorem listing_passes {cursor : Value} :
    GatesPass (listingCall cursor) memberAnswers memberIdentity (queryRule .member 3000) :=
  { declared := rfl, identified := rfl, orgId := by decide, role := rfl, unescalated := rfl,
    rate := rfl, inPlan := rfl }

/-- The contract accepts `cursor: undefined` and keeps the key, and `dispatch` throws on
signing it. -/
theorem undefined_cursor_threw :
    (contractFor roughFormats (str "project") .read).input (listing .undefined) =
        some (listing .undefined) ∧
      GatesPass (listingCall .undefined) memberAnswers memberIdentity (queryRule .member 3000) ∧
      prepare .transparent (str "secret") registry (contractFor roughFormats)
        (listingCall .undefined) memberAnswers = .error .threw ∧
      ¬ Delivered .transparent (str "secret") roughFormats (listingCall .undefined) memberAnswers
        (queryRule .member 3000) := by
  have hthrew : prepare .transparent (str "secret") registry (contractFor roughFormats)
      (listingCall .undefined) memberAnswers = .error .threw := rfl
  refine ⟨rfl, listing_passes, hthrew, ?_⟩
  intro h
  obtain ⟨e, p, hfidelity⟩ := h
  have hsigned := hfidelity.signed
  rw [hthrew] at hsigned
  cases hsigned

/-- A cursor of `null` says that there is none, as `undefined` does, and its call arrives.
-/
theorem null_cursor_delivered :
    Delivered .transparent (str "secret") roughFormats (listingCall .null) memberAnswers
      (queryRule .member 3000) := by
  let read : Schema := .object [(str "cursor", nullish text),
    (str "limit", .withDefault (intBetween 1 100) (.number (.finite (.ofInt 20)))),
    (str "includeArchived", .withDefault .boolean (.bool false))]
  have hspelled : ¬ read.spellsUndefined (listing .null) := by
    intro h
    obtain ⟨k, inner, hfield, hundefined⟩ := h
    simp only [List.mem_cons, List.not_mem_nil, or_false, Prod.mk.injEq] at hfield
    rcases hfield with ⟨rfl, -⟩ | ⟨-, hother⟩ | ⟨-, hother⟩
    · cases hundefined
    · cases hother
    · cases hother
  exact (@delivered_iff .transparent (str "secret") roughFormats (listingCall .null) memberAnswers
    (queryRule .member 3000) memberIdentity _ (listing .null) rfl rfl listing_passes).mpr hspelled

end Demonstration

end Guardrail
