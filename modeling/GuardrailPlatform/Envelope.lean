import GuardrailPlatform.CanonicalForm
import GuardrailPlatform.Registry

/-!
# Envelopes, their canonical bytes, and freshness

The context object serialised for the wire, the schemas that read it back, and
the exact text each signature covers.  Schemas read JSON: what reaches a
service or the gateway has been through `JSON.parse`.  A schema strips the keys
it does not name, and refuses by answering `none`.
-/

/-- An own property of an object. -/
def Js.Json.member? (j : Js.Json) (key : Js.JSString) : Option Js.Json :=
  match j with
  | .object members => members.lookup key
  | _ => none

/-- An own property of an object. -/
def Js.Value.member? (v : Js.Value) (key : Js.JSString) : Option Js.Value :=
  match v with
  | .object members => members.lookup key
  | _ => none

/-- Read a member that must be there. -/
def Js.Json.field {α : Type} (j : Js.Json) (key : Js.JSString) (read : Js.Json → Option α) :
    Option α :=
  (j.member? key).bind read

/-- Read a member that may be absent. -/
def Js.Json.optionalField {α : Type} (j : Js.Json) (key : Js.JSString)
    (read : Js.Json → Option α) : Option (Option α) :=
  match j.member? key with
  | none => some none
  | some item => (read item).map some

namespace Guardrail

open Js

/-! ## Reading JSON -/

/-- `z.string().min(length)`. -/
def readString (length : ℕ) : Json → Option JSString
  | .string s => if length ≤ s.length then some s else none
  | _ => none

def maxSafeInteger : ℤ := 9007199254740991

/-- `Number.isSafeInteger`. -/
def IsSafe (z : ℤ) : Prop := -maxSafeInteger ≤ z ∧ z ≤ maxSafeInteger

instance : DecidablePred IsSafe := fun _ => inferInstanceAs (Decidable (_ ∧ _))

/-- `z.number().int()`: a safe integer. -/
def readInt : Json → Option ℤ
  | .number x =>
    match x.toInt? with
    | some z => if IsSafe z then some z else none
    | none => none
  | _ => none

def readStrings : List Json → Option (List JSString)
  | [] => some []
  | .string s :: js => (readStrings js).map (s :: ·)
  | _ :: _ => none

/-- `z.array(z.string())`. -/
def readStringArray : Json → Option (List JSString)
  | .array items => readStrings items
  | _ => none

/-- `z.enum(ORG_ROLES)`. -/
def readRole : Json → Option OrgRole
  | .string s => orgRoles.find? (fun role => role.name == s)
  | _ => none

/-- `z.custom<Operation>(isOperation)`. -/
def readOperation : Json → Option Operation
  | .string s => operations.find? (fun operation => operation.name == s)
  | _ => none

/-- `z.custom` with a guard on strings. -/
def readKey (guard : JSString → Bool) : Json → Option JSString
  | .string s => if guard s then some s else none
  | _ => none

/-! ## The request envelope -/

/-- The signed context of a request. -/
structure RequestMeta where
  requestId : JSString
  orgId : JSString
  userId : JSString
  role : OrgRole
  permissions : List JSString
  plan : PlanKey
  resource : ResourceKey
  operation : Operation
  deadlineAt : ℤ
  issuedAt : ℤ
  traceparent : Option JSString
deriving DecidableEq

structure Envelope where
  requestMeta : RequestMeta
  payload : Value
  signature : JSString

/-- The meta as JSON. -/
def RequestMeta.toJson (m : RequestMeta) : Json :=
  .object ([
    (str "requestId", .string m.requestId),
    (str "orgId", .string m.orgId),
    (str "userId", .string m.userId),
    (str "role", .string m.role.name),
    (str "permissions", .array (m.permissions.map .string)),
    (str "plan", .string m.plan),
    (str "resource", .string m.resource),
    (str "operation", .string m.operation.name),
    (str "issuedAt", .number (.ofInt m.issuedAt)),
    (str "deadlineAt", .number (.ofInt m.deadlineAt))] ++
    (m.traceparent.map (fun t => (str "traceparent", Json.string t))).toList)

def Envelope.toValue (e : Envelope) : Value :=
  .object [(str "meta", e.requestMeta.toJson.toValue), (str "payload", e.payload),
    (str "signature", .string e.signature)]

/-- `encode`: the JSON that crosses the bus, where there is one. -/
def encode (value : Value) : Option Json :=
  match project value with
  | .json j => some j
  | _ => none

/-- The `requestMeta` schema. -/
def parseRequestMeta (reg : Registry) (raw : Json) : Option RequestMeta := do
  let requestId ← raw.field (str "requestId") (readString 8)
  let orgId ← raw.field (str "orgId") (readString 1)
  let userId ← raw.field (str "userId") (readString 1)
  let role ← raw.field (str "role") readRole
  let permissions ← raw.field (str "permissions") readStringArray
  let plan ← raw.field (str "plan") (readKey reg.isPlanKey)
  let resource ← raw.field (str "resource") (readKey reg.isResourceKey)
  let operation ← raw.field (str "operation") readOperation
  let deadlineAt ← raw.field (str "deadlineAt") readInt
  let issuedAt ← raw.field (str "issuedAt") readInt
  let traceparent ← raw.optionalField (str "traceparent") (readString 0)
  return { requestId, orgId, userId, role, permissions, plan, resource, operation, deadlineAt,
           issuedAt, traceparent }

/-- `z.unknown()` on a member: its value, or `undefined`. -/
def readUnknown (raw : Json) (key : JSString) : Value :=
  match raw.member? key with
  | some item => item.toValue
  | none => .undefined

/-- The `envelope` schema. -/
def parseEnvelope (reg : Registry) (raw : Json) : Option Envelope := do
  let requestMeta ← raw.field (str "meta") (parseRequestMeta reg)
  let signature ← raw.field (str "signature") (readString 16)
  return { requestMeta, payload := readUnknown raw (str "payload"), signature }

/-! ## Errors -/

/-- The error vocabulary that survives a network hop. -/
inductive ErrorCode
  | unauthorized
  | permissionDenied
  | upgradeRequired
  | noActiveOrg
  | rateLimited
  | notFound
  | conflict
  | invalidInput
  | serviceUnavailable
  | deadlineExceeded
  | untrustedEnvelope
  | internal
deriving DecidableEq

def ErrorCode.name : ErrorCode → JSString
  | .unauthorized => str "UNAUTHORIZED"
  | .permissionDenied => str "PERMISSION_DENIED"
  | .upgradeRequired => str "UPGRADE_REQUIRED"
  | .noActiveOrg => str "NO_ACTIVE_ORG"
  | .rateLimited => str "RATE_LIMITED"
  | .notFound => str "NOT_FOUND"
  | .conflict => str "CONFLICT"
  | .invalidInput => str "INVALID_INPUT"
  | .serviceUnavailable => str "SERVICE_UNAVAILABLE"
  | .deadlineExceeded => str "DEADLINE_EXCEEDED"
  | .untrustedEnvelope => str "UNTRUSTED_ENVELOPE"
  | .internal => str "INTERNAL"

/-- A coded failure thrown by a handler or by the transport. -/
structure ServiceError where
  code : ErrorCode
  message : JSString
  data : Option Value

/-! ## Replies and events -/

/-- The error a refusal carries. -/
structure WireError where
  code : JSString
  message : JSString
  data : Option Value

def WireError.toValue (e : WireError) : Value :=
  .object ([(str "code", .string e.code), (str "message", .string e.message)] ++
    (e.data.map (fun d => (str "data", d))).toList)

inductive ReplyEnvelope
  | ok (requestId signature : JSString) (data : Value)
  | refused (requestId signature : JSString) (error : WireError)

namespace ReplyEnvelope

def isOk : ReplyEnvelope → Bool
  | .ok .. => true
  | .refused .. => false

def requestId : ReplyEnvelope → JSString
  | .ok requestId .. => requestId
  | .refused requestId .. => requestId

def signature : ReplyEnvelope → JSString
  | .ok _ signature _ => signature
  | .refused _ signature _ => signature

/-- What the reply answers with: its data, or its error. -/
def answered : ReplyEnvelope → Value
  | .ok _ _ data => data
  | .refused _ _ error => error.toValue

def toValue : ReplyEnvelope → Value
  | .ok requestId signature data =>
    .object [(str "ok", .bool true), (str "requestId", .string requestId),
      (str "signature", .string signature), (str "data", data)]
  | .refused requestId signature error =>
    .object [(str "ok", .bool false), (str "requestId", .string requestId),
      (str "signature", .string signature), (str "error", error.toValue)]

end ReplyEnvelope

/-- The schema of a refusal's error. -/
def parseWireError (raw : Json) : Option WireError := do
  let code ← raw.field (str "code") (readString 0)
  let message ← raw.field (str "message") (readString 0)
  return { code, message, data := (raw.member? (str "data")).map Json.toValue }

/-- The `replyEnvelope` schema. -/
def parseReply (raw : Json) : Option ReplyEnvelope :=
  match raw.member? (str "ok") with
  | some (.bool true) => do
    let requestId ← raw.field (str "requestId") (readString 1)
    let signature ← raw.field (str "signature") (readString 16)
    return .ok requestId signature (readUnknown raw (str "data"))
  | some (.bool false) => do
    let requestId ← raw.field (str "requestId") (readString 1)
    let signature ← raw.field (str "signature") (readString 16)
    let error ← raw.field (str "error") parseWireError
    return .refused requestId signature error
  | _ => none

/-- The one event body: `{ outcome: "success" }`. -/
def successPayload : Value := .object [(str "outcome", .string (str "success"))]

/-- The `eventPayload` schema. -/
def isEventPayload : Value → Bool
  | .object members =>
    match members.lookup (str "outcome") with
    | some (.string s) => s == str "success"
    | _ => false
  | _ => false

/-! ## Freshness -/

/-- `CLOCK_SKEW_MS`. -/
def clockSkewMs : ℤ := 2000

/-- The verdict on an envelope's clock fields. -/
inductive FreshnessVerdict
  | fresh
  | stale (code : ErrorCode) (message : JSString)

/-- Bound the signed clock fields; the deadline applies only where somebody waits. -/
def checkFreshness (reg : Registry) (m : RequestMeta) (transport : Transport) (now : ℤ) :
    FreshnessVerdict :=
  if m.issuedAt > now + clockSkewMs then
    .stale .untrustedEnvelope (str "Envelope was issued in the future.")
  else
    let budget := m.deadlineAt - m.issuedAt
    if budget ≤ 0 ∨ budget > reg.maxTimeoutMs + clockSkewMs then
      .stale .untrustedEnvelope
        (str "Envelope claims a budget no operation in the registry declares.")
    else if transport = .rpc ∧ m.deadlineAt + clockSkewMs ≤ now then
      .stale .deadlineExceeded (str "Request expired before it was handled.")
    else .fresh

/-! ## Across the codec -/

/-- What the `requestMeta` schema demands beyond its types. -/
structure RequestMeta.Valid (reg : Registry) (m : RequestMeta) : Prop where
  requestId : 8 ≤ m.requestId.length
  orgId : 1 ≤ m.orgId.length
  userId : 1 ≤ m.userId.length
  plan : reg.isPlanKey m.plan = true
  resource : reg.isResourceKey m.resource = true
  deadlineAt : IsSafe m.deadlineAt
  issuedAt : IsSafe m.issuedAt

/-- A string is read where it is one, and is long enough. -/
theorem readString_eq_some {length : ℕ} {j : Json} {s : JSString} :
    readString length j = some s ↔ j = .string s ∧ length ≤ s.length := by
  constructor
  · intro h
    cases j with
    | string t =>
        obtain ⟨hlength, hs⟩ := Option.ite_none_right_eq_some.mp h
        obtain rfl := Option.some.inj hs
        exact ⟨rfl, hlength⟩
    | _ => cases h
  · intro ⟨hj, hlength⟩
    rw [hj, readString, if_pos hlength]

/-- A key is read where it is a string that the guard lets pass. -/
theorem readKey_eq_some {guard : JSString → Bool} {j : Json} {s : JSString} :
    readKey guard j = some s ↔ j = .string s ∧ guard s = true := by
  constructor
  · intro h
    cases j with
    | string t =>
        obtain ⟨hguard, hs⟩ := Option.ite_none_right_eq_some.mp h
        obtain rfl := Option.some.inj hs
        exact ⟨rfl, hguard⟩
    | _ => cases h
  · intro ⟨hj, hguard⟩
    rw [hj, readKey, if_pos hguard]

/-- An integer is read out of JSON only where it is a safe one. -/
theorem isSafe_of_readInt {j : Json} {z : ℤ} (h : readInt j = some z) : IsSafe z := by
  unfold readInt at h
  split at h
  · split at h
    · split at h
      · obtain rfl := Option.some.inj h
        assumption
      · cases h
    · cases h
  · cases h

/-- A safe integer that was written as a JSON number is read back as the same integer. -/
theorem readInt_ofInt {z : ℤ} (h : IsSafe z) : readInt (.number (.ofInt z)) = some z := by
  rw [readInt, Finite.toInt?_ofInt]
  exact if_pos h

/-- An integer that was written and can be read back was a safe one to write. -/
theorem isSafe_of_readInt_ofInt {z w : ℤ} (h : readInt (.number (.ofInt z)) = some w) :
    IsSafe z := by
  rw [readInt, Finite.toInt?_ofInt] at h
  exact (Option.ite_none_right_eq_some.mp h).1

theorem readStrings_strings (ss : List JSString) : readStrings (ss.map .string) = some ss := by
  induction ss with
  | nil => rfl
  | cons s ss ih => rw [List.map_cons, readStrings, ih, Option.map_some]

/-- A role that was written by its name is read back, whichever of the three it is. -/
theorem readRole_name (role : OrgRole) : readRole (.string role.name) = some role := by
  cases role <;> decide

/-- An operation that was written by its name is read back, whichever of the five it is. -/
theorem readOperation_name (operation : Operation) :
    readOperation (.string operation.name) = some operation := by
  cases operation <;> decide

/-- A field is read where it is there and its reader takes it. -/
theorem field_eq_some {α : Type} {j : Json} {key : JSString} {read : Json → Option α} {a : α} :
    j.field key read = some a ↔ ∃ item, j.member? key = some item ∧ read item = some a :=
  Option.bind_eq_some_iff

/-- The `requestMeta` schema, member by member. -/
structure ReadAs (reg : Registry) (j : Json) (m : RequestMeta) : Prop where
  requestId : j.field (str "requestId") (readString 8) = some m.requestId
  orgId : j.field (str "orgId") (readString 1) = some m.orgId
  userId : j.field (str "userId") (readString 1) = some m.userId
  role : j.field (str "role") readRole = some m.role
  permissions : j.field (str "permissions") readStringArray = some m.permissions
  plan : j.field (str "plan") (readKey reg.isPlanKey) = some m.plan
  resource : j.field (str "resource") (readKey reg.isResourceKey) = some m.resource
  operation : j.field (str "operation") readOperation = some m.operation
  deadlineAt : j.field (str "deadlineAt") readInt = some m.deadlineAt
  issuedAt : j.field (str "issuedAt") readInt = some m.issuedAt
  traceparent : j.optionalField (str "traceparent") (readString 0) = some m.traceparent

/-- A meta is read out of JSON exactly where each of its fields is read. -/
theorem parseRequestMeta_eq_some {reg : Registry} {j : Json} {m : RequestMeta} :
    parseRequestMeta reg j = some m ↔ ReadAs reg j m := by
  constructor
  · intro h
    obtain ⟨requestId, hrequest, h⟩ := Option.bind_eq_some_iff.mp h
    obtain ⟨orgId, horg, h⟩ := Option.bind_eq_some_iff.mp h
    obtain ⟨userId, huser, h⟩ := Option.bind_eq_some_iff.mp h
    obtain ⟨role, hrole, h⟩ := Option.bind_eq_some_iff.mp h
    obtain ⟨permissions, hpermissions, h⟩ := Option.bind_eq_some_iff.mp h
    obtain ⟨plan, hplan, h⟩ := Option.bind_eq_some_iff.mp h
    obtain ⟨resource, hresource, h⟩ := Option.bind_eq_some_iff.mp h
    obtain ⟨operation, hoperation, h⟩ := Option.bind_eq_some_iff.mp h
    obtain ⟨deadlineAt, hdeadline, h⟩ := Option.bind_eq_some_iff.mp h
    obtain ⟨issuedAt, hissued, h⟩ := Option.bind_eq_some_iff.mp h
    obtain ⟨traceparent, htrace, h⟩ := Option.bind_eq_some_iff.mp h
    obtain rfl := Option.some.inj h
    exact ⟨hrequest, horg, huser, hrole, hpermissions, hplan, hresource, hoperation, hdeadline,
      hissued, htrace⟩
  · intro h
    rw [parseRequestMeta, h.requestId, h.orgId, h.userId, h.role, h.permissions, h.plan,
      h.resource, h.operation, h.deadlineAt, h.issuedAt, h.traceparent]
    rfl

theorem valid_of_parse {reg : Registry} {j : Json} {m : RequestMeta}
    (h : parseRequestMeta reg j = some m) : m.Valid reg := by
  have hread := parseRequestMeta_eq_some.mp h
  obtain ⟨_, -, hrequest⟩ := field_eq_some.mp hread.requestId
  obtain ⟨_, -, horg⟩ := field_eq_some.mp hread.orgId
  obtain ⟨_, -, huser⟩ := field_eq_some.mp hread.userId
  obtain ⟨_, -, hplan⟩ := field_eq_some.mp hread.plan
  obtain ⟨_, -, hresource⟩ := field_eq_some.mp hread.resource
  obtain ⟨_, -, hdeadline⟩ := field_eq_some.mp hread.deadlineAt
  obtain ⟨_, -, hissued⟩ := field_eq_some.mp hread.issuedAt
  exact ⟨(readString_eq_some.mp hrequest).2, (readString_eq_some.mp horg).2,
    (readString_eq_some.mp huser).2, (readKey_eq_some.mp hplan).2, (readKey_eq_some.mp hresource).2,
    isSafe_of_readInt hdeadline, isSafe_of_readInt hissued⟩

/-- A trace parent that was left out is read as left out. -/
theorem traceparent_toJson (m : RequestMeta) :
    m.toJson.optionalField (str "traceparent") (readString 0) = some m.traceparent := by
  obtain ⟨_, _, _, _, _, _, _, _, _, _, _ | traceparent⟩ := m <;> rfl

/-- A valid meta is read back from its JSON just as it was written there. -/
theorem parse_toJson {reg : Registry} {m : RequestMeta} (h : m.Valid reg) :
    parseRequestMeta reg m.toJson = some m := by
  refine parseRequestMeta_eq_some.mpr ⟨?_, ?_, ?_, ?_, ?_, ?_, ?_, ?_, ?_, ?_, ?_⟩
  · exact readString_eq_some.mpr ⟨rfl, h.requestId⟩
  · exact readString_eq_some.mpr ⟨rfl, h.orgId⟩
  · exact readString_eq_some.mpr ⟨rfl, h.userId⟩
  · exact readRole_name m.role
  · exact readStrings_strings m.permissions
  · exact readKey_eq_some.mpr ⟨rfl, h.plan⟩
  · exact readKey_eq_some.mpr ⟨rfl, h.resource⟩
  · exact readOperation_name m.operation
  · exact readInt_ofInt h.deadlineAt
  · exact readInt_ofInt h.issuedAt
  · exact traceparent_toJson m

/-- A meta that was written and then parsed is the one it was, if it is parsed at all. -/
theorem parse_toJson_eq {reg : Registry} {m m' : RequestMeta}
    (h : parseRequestMeta reg m.toJson = some m') : m' = m := by
  have hread := parseRequestMeta_eq_some.mp h
  have hrequest : readString 8 (.string m.requestId) = some m'.requestId := hread.requestId
  have horg : readString 1 (.string m.orgId) = some m'.orgId := hread.orgId
  have huser : readString 1 (.string m.userId) = some m'.userId := hread.userId
  have hrole : readRole (.string m.role.name) = some m'.role := hread.role
  have hpermissions : readStrings (m.permissions.map .string) = some m'.permissions :=
    hread.permissions
  have hplan : readKey reg.isPlanKey (.string m.plan) = some m'.plan := hread.plan
  have hresource : readKey reg.isResourceKey (.string m.resource) = some m'.resource :=
    hread.resource
  have hoperation : readOperation (.string m.operation.name) = some m'.operation :=
    hread.operation
  have hdeadline : readInt (.number (.ofInt m.deadlineAt)) = some m'.deadlineAt := hread.deadlineAt
  have hissued : readInt (.number (.ofInt m.issuedAt)) = some m'.issuedAt := hread.issuedAt
  have htrace := hread.traceparent
  rw [readRole_name] at hrole
  rw [readStrings_strings] at hpermissions
  rw [readOperation_name] at hoperation
  rw [readInt_ofInt (isSafe_of_readInt_ofInt hdeadline)] at hdeadline
  rw [readInt_ofInt (isSafe_of_readInt_ofInt hissued)] at hissued
  rw [traceparent_toJson] at htrace
  have hrequest := Json.string.inj (readString_eq_some.mp hrequest).1
  have horg := Json.string.inj (readString_eq_some.mp horg).1
  have huser := Json.string.inj (readString_eq_some.mp huser).1
  have hplan := Json.string.inj (readKey_eq_some.mp hplan).1
  have hresource := Json.string.inj (readKey_eq_some.mp hresource).1
  cases m'
  cases m
  simp_all

/-- The meta has no zero with a sign, so JSON keeps the whole of it. -/
theorem unsign_toJson (m : RequestMeta) : m.toJson.unsign = m.toJson := by
  have hpermissions : Json.unsignItems (m.permissions.map .string) =
      m.permissions.map .string := by
    rw [Json.unsignItems_eq_map, List.map_map]
    rfl
  have htrace : ∀ t : Option JSString, Json.unsignMembers
      (t.map (fun t => (str "traceparent", Json.string t))).toList =
      (t.map (fun t => (str "traceparent", Json.string t))).toList := by
    intro t
    cases t <;> rfl
  rw [RequestMeta.toJson, Json.unsign]
  simp only [List.cons_append, List.nil_append, Json.unsignMembers, Json.unsign, hpermissions,
    htrace, Finite.ofInt_unsignZero]

/-- The JSON of an envelope whose payload is JSON. -/
def Envelope.wire (e : Envelope) (p : Json) : Json :=
  .object [(str "meta", e.requestMeta.toJson), (str "payload", p),
    (str "signature", .string e.signature)]

/-- An envelope goes out as its meta and what JSON makes of its payload. -/
theorem encode_envelope {e : Envelope} {p : Json} (hp : project e.payload = .json p) :
    encode e.toValue = some (e.wire p) := by
  rw [encode, Envelope.toValue]
  simp only [project, projectMembers, project_toValue, hp, unsign_toJson]
  rfl

/-- **The envelope codec.**  An envelope with a valid meta arrives as it was
sent, its payload as the JSON it projects to. -/
theorem parse_wire {reg : Registry} {e : Envelope} (p : Json)
    (hvalid : e.requestMeta.Valid reg) (hsignature : 16 ≤ e.signature.length) :
    parseEnvelope reg (e.wire p) = some { e with payload := p.toValue } := by
  have hmeta : (e.wire p).field (str "meta") (parseRequestMeta reg) = some e.requestMeta :=
    parse_toJson hvalid
  have hread : (e.wire p).field (str "signature") (readString 16) = some e.signature :=
    readString_eq_some.mpr ⟨rfl, hsignature⟩
  rw [parseEnvelope, hmeta, hread]
  rfl

/-- An envelope that is read back has the meta it was sent with. -/
theorem requestMeta_of_parse_wire {reg : Registry} {e e' : Envelope} {p : Json}
    (h : parseEnvelope reg (e.wire p) = some e') : e'.requestMeta = e.requestMeta := by
  obtain ⟨m, hm, h⟩ := Option.bind_eq_some_iff.mp h
  obtain ⟨signature, -, h⟩ := Option.bind_eq_some_iff.mp h
  obtain rfl := Option.some.inj h
  exact parse_toJson_eq hm

/-- The payload that arrives is the one which the JSON hop has made of what was sent. -/
theorem payload_of_parse_wire {reg : Registry} {e e' : Envelope} {p : Json}
    (h : parseEnvelope reg (e.wire p) = some e') : e'.payload = p.toValue := by
  obtain ⟨m, -, h⟩ := Option.bind_eq_some_iff.mp h
  obtain ⟨signature, -, h⟩ := Option.bind_eq_some_iff.mp h
  obtain rfl := Option.some.inj h
  rfl

/-- What the schema accepts has a valid meta and a signature of some length. -/
theorem valid_of_parseEnvelope {reg : Registry} {j : Json} {e : Envelope}
    (h : parseEnvelope reg j = some e) : e.requestMeta.Valid reg := by
  obtain ⟨m, hm, h⟩ := Option.bind_eq_some_iff.mp h
  obtain ⟨signature, -, h⟩ := Option.bind_eq_some_iff.mp h
  obtain rfl := Option.some.inj h
  obtain ⟨item, -, hparse⟩ := field_eq_some.mp hm
  exact valid_of_parse hparse

/-- An error arrives with its data as the JSON it projects to. -/
theorem parse_error {error : WireError} {p : Json} (hp : project error.toValue = .json p) :
    ∃ error', parseWireError p = some error' ∧ error'.code = error.code ∧
      error'.message = error.message ∧ error'.toValue = p.toValue := by
  obtain ⟨code, message, data⟩ := error
  cases data with
  | none =>
      obtain rfl := Serialized.json.inj hp
      exact ⟨⟨code, message, none⟩, rfl, rfl, rfl, rfl⟩
  | some d =>
      cases hd : project d with
      | throws =>
          simp only [WireError.toValue, Option.map_some, Option.toList_some, List.cons_append,
            List.nil_append, project, projectMembers, hd, reduceCtorEq] at hp
      | omitted =>
          simp only [WireError.toValue, Option.map_some, Option.toList_some, List.cons_append,
            List.nil_append, project, projectMembers, hd] at hp
          obtain rfl := Serialized.json.inj hp
          exact ⟨⟨code, message, none⟩, rfl, rfl, rfl, rfl⟩
      | json j =>
          simp only [WireError.toValue, Option.map_some, Option.toList_some, List.cons_append,
            List.nil_append, project, projectMembers, hd] at hp
          obtain rfl := Serialized.json.inj hp
          exact ⟨⟨code, message, some j.toValue⟩, rfl, rfl, rfl, rfl⟩

/-- **The reply codec.**  A reply arrives with its outcome, the request it
answers and its signature, its answer as the JSON it projects to. -/
theorem parse_encode_reply {r : ReplyEnvelope} {p : Json} (hrequest : 1 ≤ r.requestId.length)
    (hsignature : 16 ≤ r.signature.length) (hp : project r.answered = .json p) :
    ∃ j r', encode r.toValue = some j ∧ parseReply j = some r' ∧ r'.isOk = r.isOk ∧
      r'.requestId = r.requestId ∧ r'.signature = r.signature ∧ r'.answered = p.toValue := by
  cases r with
  | ok requestId signature data =>
      let j : Json := .object [(str "ok", .bool true), (str "requestId", .string requestId),
        (str "signature", .string signature), (str "data", p)]
      have hid : j.field (str "requestId") (readString 1) = some requestId :=
        readString_eq_some.mpr ⟨rfl, hrequest⟩
      have hsig : j.field (str "signature") (readString 16) = some signature :=
        readString_eq_some.mpr ⟨rfl, hsignature⟩
      refine ⟨j, .ok requestId signature p.toValue, ?_, ?_, rfl, rfl, rfl, rfl⟩
      · have hp : project data = .json p := hp
        simp only [encode, ReplyEnvelope.toValue, project, projectMembers, hp, j]
      · rw [parseReply, show j.member? (str "ok") = some (.bool true) from rfl]
        simp only [hid, hsig]
        rfl
  | refused requestId signature error =>
      have hp : project error.toValue = .json p := hp
      obtain ⟨error', herror, -, -, hanswered⟩ := parse_error hp
      let j : Json := .object [(str "ok", .bool false), (str "requestId", .string requestId),
        (str "signature", .string signature), (str "error", p)]
      have hid : j.field (str "requestId") (readString 1) = some requestId :=
        readString_eq_some.mpr ⟨rfl, hrequest⟩
      have hsig : j.field (str "signature") (readString 16) = some signature :=
        readString_eq_some.mpr ⟨rfl, hsignature⟩
      have herr : j.field (str "error") parseWireError = some error' := herror
      refine ⟨j, .refused requestId signature error', ?_, ?_, rfl, rfl, rfl, hanswered⟩
      · simp only [encode, ReplyEnvelope.toValue, project, projectMembers, hp, j]
      · rw [parseReply, show j.member? (str "ok") = some (.bool false) from rfl]
        simp only [hid, hsig, herr]
        rfl

end Guardrail
