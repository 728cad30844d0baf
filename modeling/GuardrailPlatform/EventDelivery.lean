import GuardrailPlatform.Decode
import GuardrailPlatform.RegistryData
import GuardrailPlatform.Service

/-!
# What becomes of a delivered event

A durable consumer decodes the bytes, hands the value to its handler and acks;
whatever throws on the way is a nak, and the message comes again.  The handler
`defineConsumer` builds throws nothing of its own: a message that fails a check
is dropped by returning.  But the bytes are decoded before the handler is
called, so bytes that are no JSON are a nak, and are delivered until the stream
gives up.
-/

namespace Guardrail

open Js

/-! ## The handler -/

/-- The `envelope` schema, on a decoded message.  No field of it accepts an
infinite number, nor the `null` JSON writes in its place; the payload is taken
as it is. -/
def readEnvelope (reg : Registry) (raw : Value) : Option Envelope :=
  match project raw with
  | .json j => (parseEnvelope reg j).map fun e =>
    { e with payload := (raw.member? (str "payload")).getD .undefined }
  | _ => none

section

variable (crypto : Crypto) (secret : JSString) (reg : Registry)

/-- `defineConsumer` on a decoded message: the meta its callback runs on, if
the message passes. -/
def consumeValue (raw : Value) (subject : JSString) : Option RequestMeta :=
  match readEnvelope reg raw with
  | none => none
  | some { requestMeta := m, payload, signature } =>
    if ¬ verifyEvent crypto m payload signature secret then none
    else if ¬ isEventPayload payload then none
    else
      match reg.findRoute m.resource m.operation with
      | none => none
      | some route => if route.event ≠ some subject then none else some m

/-- How a handler ended: what its callback ran on, if it ran, and whether anything was thrown. -/
structure HandlerRun where
  ran : Option RequestMeta
  threw : Bool

/-- `defineConsumer`.  The callback says whether it completes. -/
def defineConsumer (callback : RequestMeta → JSString → Bool) (raw : Value) (subject : JSString) :
    HandlerRun :=
  match consumeValue crypto secret reg raw subject with
  | none => { ran := none, threw := false }
  | some m => { ran := some m, threw := !callback m subject }

/-! ## The consumer -/

inductive Acknowledgement
  | ack
  | nak
deriving DecidableEq

/-- One delivery: what the callback ran on, and what the stream is told. -/
structure ConsumedDelivery where
  ran : Option RequestMeta
  told : Acknowledgement

/-- `consume`: one turn of its loop. -/
def consumeDelivery (handler : Value → JSString → HandlerRun) (data : List UInt8)
    (subject : JSString) : ConsumedDelivery :=
  match decode data with
  | none => { ran := none, told := .nak }
  | some raw =>
    let run := handler raw subject
    { ran := run.ran, told := if run.threw then .nak else .ack }

/-- The bytes are JSON, an envelope, signed as an event, an event body, and on
the event subject of their route. -/
def Genuine (data : List UInt8) (subject : JSString) (m : RequestMeta) : Prop :=
  ∃ raw e route, decode data = some raw ∧ readEnvelope reg raw = some e ∧ e.requestMeta = m ∧
    verifyEvent crypto m e.payload e.signature secret = true ∧ isEventPayload e.payload = true ∧
    reg.findRoute m.resource m.operation = some route ∧ route.event = some subject

/-- Nothing but the callback's failure is a nak, and what is not genuine is
acked at once, the callback not run. -/
def DroppedOnce (data : List UInt8) (subject : JSString)
    (callback : RequestMeta → JSString → Bool) : Prop :=
  let delivery := consumeDelivery (defineConsumer crypto secret reg callback) data subject
  (delivery.told = .nak → ∃ m, delivery.ran = some m ∧ callback m subject = false) ∧
    ((¬ ∃ m, Genuine crypto secret reg data subject m) → delivery.told = .ack ∧ delivery.ran = none)

end

/-! ## What passes -/

variable {crypto : Crypto} {secret : JSString} {reg : Registry}

/-- What a consumer is handed has passed each of its five checks. -/
theorem consumeValue_eq_some {raw : Value} {subject : JSString} {m : RequestMeta} :
    consumeValue crypto secret reg raw subject = some m ↔ ∃ e route,
      readEnvelope reg raw = some e ∧ e.requestMeta = m ∧
      verifyEvent crypto m e.payload e.signature secret = true ∧ isEventPayload e.payload = true ∧
      reg.findRoute m.resource m.operation = some route ∧ route.event = some subject := by
  constructor
  · intro h
    unfold consumeValue at h
    split at h
    · cases h
    · rename_i m' payload signature hread
      split at h
      · cases h
      · rename_i hverify
        split at h
        · cases h
        · rename_i hbody
          split at h
          · cases h
          · rename_i route hroute
            split at h
            · cases h
            · rename_i hevent
              obtain rfl := Option.some.inj h
              exact ⟨_, route, hread, rfl, not_not.mp hverify, not_not.mp hbody, hroute,
                not_not.mp hevent⟩
  · intro h
    obtain ⟨e, route, hread, rfl, hverify, hbody, hroute, hevent⟩ := h
    simp only [consumeValue, hread, hverify, hbody, hroute, hevent, not_true_eq_false, if_false,
      ne_eq]

/-! ## JSON messages -/

/-- Mapping the values of a record changes what its keys lead to, and no key. -/
theorem lookup_mapValues {α β : Type} (f : α → β) (members : List (JSString × α)) (key : JSString) :
    (mapValues f members).lookup key = (members.lookup key).map f := by
  induction members with
  | nil => rfl
  | cons entry members ih =>
      have hcons : mapValues f (entry :: members) = (entry.1, f entry.2) :: mapValues f members := rfl
      rw [hcons, List.lookup_cons, List.lookup_cons, ih]
      cases key == entry.1 <;> rfl

/-- A member is found whether or not the signs of zeros are kept. -/
theorem member?_unsign (j : Json) (key : JSString) :
    j.unsign.member? key = (j.member? key).map Json.unsign := by
  cases j with
  | object members =>
      rw [Json.unsign, Json.unsignMembers_eq]
      exact lookup_mapValues _ members key
  | _ => rfl

/-- A reader that does not see the sign of a zero reads the same member. -/
theorem field_unsign {α : Type} {read : Json → Option α} (hread : ∀ j, read j.unsign = read j)
    (j : Json) (key : JSString) : j.unsign.field key read = j.field key read := by
  rw [Json.field, Json.field, member?_unsign, Option.bind_map]
  congr 1
  funext item
  exact hread item

/-- An optional field is read the same without the signs of zeros. -/
theorem optionalField_unsign {α : Type} {read : Json → Option α}
    (hread : ∀ j, read j.unsign = read j) (j : Json) (key : JSString) :
    j.unsign.optionalField key read = j.optionalField key read := by
  rw [Json.optionalField, Json.optionalField, member?_unsign]
  cases j.member? key with
  | none => rfl
  | some item =>
      simp only [Option.map_some, hread]

/-- An array of strings is read the same when zeros have lost their signs. -/
theorem readStringArray_unsign (j : Json) : readStringArray j.unsign = readStringArray j := by
  cases j with
  | array items =>
      rw [Json.unsign, Json.unsignItems_eq_map, readStringArray, readStringArray]
      induction items with
      | nil => rfl
      | cons item items ih =>
          rw [List.map_cons]
          cases item <;> simp only [Json.unsign, readStrings, ih]
  | _ => rfl

/-- An integer is read the same without the sign of its zero. -/
theorem readInt_unsign (j : Json) : readInt j.unsign = readInt j := by
  cases j with
  | number x => cases x <;> rfl
  | _ => rfl

/-- Whether a meta is read, and which, does not depend on the sign of any zero. -/
theorem parseRequestMeta_unsign (reg : Registry) (j : Json) :
    parseRequestMeta reg j.unsign = parseRequestMeta reg j := by
  have hstring : ∀ n (item : Json), readString n item.unsign = readString n item := by
    intro n item
    cases item <;> rfl
  have hrole : ∀ item : Json, readRole item.unsign = readRole item := by
    intro item
    cases item <;> rfl
  have hoperation : ∀ item : Json, readOperation item.unsign = readOperation item := by
    intro item
    cases item <;> rfl
  have hkey : ∀ guard (item : Json), readKey guard item.unsign = readKey guard item := by
    intro guard item
    cases item <;> rfl
  simp only [parseRequestMeta, field_unsign (hstring _), field_unsign hrole,
    field_unsign readStringArray_unsign, field_unsign (hkey _), field_unsign hoperation,
    field_unsign readInt_unsign, optionalField_unsign (hstring _)]

/-- A message that was decoded from JSON is read as an envelope exactly as that JSON is
parsed. -/
theorem readEnvelope_toValue (reg : Registry) (j : Json) :
    readEnvelope reg j.toValue = parseEnvelope reg j := by
  have hstring : ∀ item : Json, readString 16 item.unsign = readString 16 item := by
    intro item
    cases item <;> rfl
  have hpayload : (j.toValue.member? (str "payload")).getD .undefined =
      readUnknown j (str "payload") := by
    cases j with
    | object members =>
        simp only [Json.toValue, Value.member?, readUnknown, Json.member?, lookup_toMembers]
        cases members.lookup (str "payload") <;> rfl
    | _ => rfl
  rw [readEnvelope, project_toValue, hpayload]
  simp only [parseEnvelope, field_unsign (parseRequestMeta_unsign reg), field_unsign hstring]
  cases j.field (str "meta") (parseRequestMeta reg) with
  | none => rfl
  | some m => cases j.field (str "signature") (readString 16) <;> rfl

/-- On a value that came from JSON, a decoded message passes exactly where its JSON does. -/
theorem consumeValue_toValue (j : Json) (subject : JSString) :
    consumeValue crypto secret reg j.toValue subject = consume crypto secret reg j subject := by
  rw [consumeValue, readEnvelope_toValue]
  rfl

/-! ## Verdicts on bytes -/

/-- A message that decodes is genuine exactly when the consumer's callback is run, with the
meta it carries. -/
theorem genuine_iff {data : List UInt8} {raw : Value} {subject : JSString} {m : RequestMeta}
    (h : decode data = some raw) : Genuine crypto secret reg data subject m ↔
      consumeValue crypto secret reg raw subject = some m := by
  rw [consumeValue_eq_some]
  constructor
  · intro hgenuine
    obtain ⟨raw', e, route, hraw', hrest⟩ := hgenuine
    obtain rfl := Option.some.inj (h.symm.trans hraw')
    exact ⟨e, route, hrest⟩
  · intro hpasses
    obtain ⟨e, route, hrest⟩ := hpasses
    exact ⟨raw, e, route, h, hrest⟩

/-- A message that fails a check is dropped, and the callback does not run. -/
theorem defineConsumer_dropped {raw : Value} {subject : JSString}
    {callback : RequestMeta → JSString → Bool}
    (h : consumeValue crypto secret reg raw subject = none) :
    defineConsumer crypto secret reg callback raw subject = { ran := none, threw := false } := by
  rw [defineConsumer, h]

/-- A message that passes every check is the callback's to accept or refuse. -/
theorem defineConsumer_passed {raw : Value} {subject : JSString} {m : RequestMeta}
    {callback : RequestMeta → JSString → Bool}
    (h : consumeValue crypto secret reg raw subject = some m) :
    defineConsumer crypto secret reg callback raw subject =
      { ran := some m, threw := !callback m subject } := by
  rw [defineConsumer, h]

/-- **Forged bytes are dropped once**, with no redelivery, exactly where they decode to
JSON. -/
theorem dropped_once_iff (crypto : Crypto) (secret : JSString) (reg : Registry)
    (data : List UInt8) (subject : JSString) (callback : RequestMeta → JSString → Bool) :
    DroppedOnce crypto secret reg data subject callback ↔ ∃ raw, decode data = some raw := by
  unfold DroppedOnce consumeDelivery
  cases hdecode : decode data with
  | none =>
      constructor
      · intro h
        obtain ⟨m, hran, -⟩ := h.1 rfl
        cases hran
      · intro h
        obtain ⟨raw, hraw⟩ := h
        cases hraw
  | some raw =>
      refine iff_of_true ?_ ⟨raw, rfl⟩
      dsimp only
      cases hconsume : consumeValue crypto secret reg raw subject with
      | none =>
          rw [defineConsumer_dropped hconsume]
          exact ⟨fun h => absurd h (by decide), fun _ => ⟨rfl, rfl⟩⟩
      | some m =>
          rw [defineConsumer_passed hconsume]
          constructor
          · intro hnak
            refine ⟨m, rfl, ?_⟩
            cases hcallback : callback m subject with
            | false => rfl
            | true =>
                rw [hcallback] at hnak
                cases hnak
          · intro hnone
            exact absurd ⟨m, (genuine_iff hdecode).mpr hconsume⟩ hnone

/-- One byte that is no JSON is a nak, and no callback ran. -/
theorem junk_is_redelivered : ¬ DroppedOnce .transparent (str "secret") registry [120]
    (str "evt.project.create") (fun _ _ => true) := by
  intro h
  have hdecode : decode [120] = none := by rfl
  unfold DroppedOnce consumeDelivery at h
  rw [hdecode] at h
  obtain ⟨m, hran, -⟩ := h.1 rfl
  cases hran

end Guardrail
