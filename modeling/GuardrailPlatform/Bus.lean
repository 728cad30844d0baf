import GuardrailPlatform.Gateway
import GuardrailPlatform.Trace

/-!
# The platform on its bus

The gateway, the services and their consumers share one secret and a bus that
anybody may write to.  A run is the history of what the honest parties did; the
adversary chooses what they receive and when.  Any JSON may be delivered to
anybody, any number of times and on any subject.  The one thing the adversary
cannot do is make a MAC: a signature that is right for a text was made by an
honest party, for that text, earlier in the run.
-/

namespace Guardrail

open Js

/-- The gateway and the four services, booted on one registry under one secret. -/
structure Platform (Effect : Type*) where
  crypto : Crypto
  secret : JSString
  reg : Registry
  contracts : ContractMap
  service : ServiceName → ServiceRuntime reg Effect
  booted : ∀ name, ∃ handlers, defineService reg name handlers = .ok (service name)

/-- The platform on a registry, with one handler for every route. -/
def Platform.ofRegistry {Effect : Type*} (crypto : Crypto) (secret : JSString) (reg : Registry)
    (contracts : ContractMap) (execute : SubjectRoute → ServiceContext → Value → Effect) :
    Platform Effect where
  crypto := crypto
  secret := secret
  reg := reg
  contracts := contracts
  service := runtimeOf execute
  booted := defineService_runtimeOf execute

/-- A message handed to a service.  Every handling has its own number. -/
structure Delivery where
  handling : ℕ
  service : ServiceName
  raw : Json
  subject : JSString
  now : ℤ

/-- What the honest parties do. -/
inductive BusEvent
  /-- The gateway signs the envelope of a call. -/
  | signed (call : ℕ) (e : Envelope)
  /-- A service takes a message through its gates. -/
  | delivered (d : Delivery)
  /-- The handler an admitted message reached settles. -/
  | settled (d : Delivery) (execution : Execution) (published : Bool)
  /-- A consumer receives a message. -/
  | consumed (raw : Json) (subject : JSString)
  /-- A pending call gets its response. -/
  | answered (call : ℕ) (response : Response)

variable {Effect : Type*}

namespace Platform

variable (P : Platform Effect)

def screen (d : Delivery) : Admission Effect :=
  Guardrail.screen P.crypto P.secret (P.service d.service) d.raw d.subject d.now

def settle (b : Binding Effect) (m : RequestMeta) (execution : Execution) (published : Bool) :
    Settled :=
  Guardrail.settle P.crypto P.secret b.route m execution published

def consume (raw : Json) (subject : JSString) : Option RequestMeta :=
  Guardrail.consume P.crypto P.secret P.reg raw subject

/-! ## What the honest parties sign -/

/-- The reply a service builds at an event, and the route it is bound to. -/
inductive Replies : BusEvent → Delivery → ReplyRoute → ReplyEnvelope → Prop
  | gate {d : Delivery} {route : ReplyRoute} {error : WireError} {reply : ReplyEnvelope}
      (hscreen : P.screen d = .refused route error)
      (hreply : reject P.crypto P.secret route error = some reply) :
      Replies (.delivered d) d route reply
  | handler {d : Delivery} {b : Binding Effect} {m : RequestMeta} {payload : Value}
      {execution : Execution} {published : Bool} {reply : ReplyEnvelope}
      (hscreen : P.screen d = .admitted b m payload)
      (hreply : (P.settle b m execution published).reply = some reply) :
      Replies (.settled d execution published) d m.replyRoute reply

/-- The statements signed at an event. -/
inductive Says : BusEvent → Statement → Prop
  | request (call : ℕ) (e : Envelope) :
      Says (.signed call e) (.envelope .request e.requestMeta e.payload)
  | event {d : Delivery} {b : Binding Effect} {m : RequestMeta} {payload : Value}
      {execution : Execution} {published : Bool} {subject : JSString} {e : Envelope}
      (hscreen : P.screen d = .admitted b m payload)
      (hevent : (P.settle b m execution published).event = some (subject, e)) :
      Says (.settled d execution published) (.envelope .event e.requestMeta e.payload)
  | reply {event : BusEvent} {d : Delivery} {route : ReplyRoute} {reply : ReplyEnvelope}
      (hreply : P.Replies event d route reply) : Says event (reply.statement route)

/-- The refusal every service signs at boot. -/
def unreadableStatement : Statement :=
  .reply (unrouted.binding false)
    (wireError .untrustedEnvelope (str "The service could not read this message.")).toValue

/-- The statements signed in a history. -/
def Said (history : List BusEvent) (s : Statement) : Prop :=
  s = unreadableStatement ∨ ∃ event ∈ history, P.Says event s

/-- If the message carries a MAC, an honest party made it. -/
def Unforged (history : List BusEvent) (raw : Json) : Prop :=
  ∀ text, raw.member? (str "signature") = some (.string (P.crypto.hmac text P.secret)) →
    ∃ s, P.Said history s ∧ s.canonical P.crypto = some text

/-! ## Runs -/

/-- An envelope the gateway signs: of a dispatched call, or on its own behalf. -/
def Signs (e : Envelope) : Prop :=
  (∃ args deps, prepare P.crypto P.secret P.reg P.contracts args deps = .ok e) ∨
  ∃ orgId resource operation requestId issuedAt,
    signedEnvelopeFor P.crypto P.secret P.reg orgId resource operation requestId issuedAt = some e

/-- What may happen after a history. -/
def Allowed (history : List BusEvent) : BusEvent → Prop
  | .signed call e => P.Signs e ∧ ∀ e', .signed call e' ∉ history
  | .delivered d => P.Unforged history d.raw ∧
      ∀ d', .delivered d' ∈ history → d'.handling ≠ d.handling
  | .settled d _ _ => .delivered d ∈ history ∧ (∃ b m payload, P.screen d = .admitted b m payload) ∧
      ∀ execution published, .settled d execution published ∉ history
  | .consumed raw _ => P.Unforged history raw
  | .answered call response => (∃ e, .signed call e ∈ history) ∧
      (∀ response', .answered call response' ∉ history) ∧
      ∀ raw, response = .message raw → P.Unforged history raw

/-- A run of the platform. -/
def Run (history : List BusEvent) : Prop := Trace.Run P.Allowed history

variable {P}

/-! ## Every MAC has a signer -/

/-- The signature of what the services parse is a member of the message. -/
theorem signature_of_parseEnvelope {reg : Registry} {raw : Json} {e : Envelope}
    (h : parseEnvelope reg raw = some e) :
    raw.member? (str "signature") = some (.string e.signature) := by
  obtain ⟨m, -, h⟩ := Option.bind_eq_some_iff.mp h
  obtain ⟨signature, hsignature, h⟩ := Option.bind_eq_some_iff.mp h
  obtain rfl := Option.some.inj h
  obtain ⟨item, hitem, hread⟩ := Option.bind_eq_some_iff.mp hsignature
  obtain ⟨rfl, -⟩ := readString_eq_some.mp hread
  exact hitem

/-- The signature that is checked on a reply is the one the raw message carries in its
member. -/
theorem signature_of_parseReply {raw : Json} {reply : ReplyEnvelope}
    (h : parseReply raw = some reply) :
    raw.member? (str "signature") = some (.string reply.signature) := by
  unfold parseReply at h
  split at h
  · obtain ⟨requestId, -, h⟩ := Option.bind_eq_some_iff.mp h
    obtain ⟨signature, hsignature, h⟩ := Option.bind_eq_some_iff.mp h
    obtain rfl := Option.some.inj h
    obtain ⟨item, hitem, hread⟩ := Option.bind_eq_some_iff.mp hsignature
    obtain ⟨rfl, -⟩ := readString_eq_some.mp hread
    exact hitem
  · obtain ⟨requestId, -, h⟩ := Option.bind_eq_some_iff.mp h
    obtain ⟨signature, hsignature, h⟩ := Option.bind_eq_some_iff.mp h
    obtain ⟨error, -, h⟩ := Option.bind_eq_some_iff.mp h
    obtain rfl := Option.some.inj h
    obtain ⟨item, hitem, hread⟩ := Option.bind_eq_some_iff.mp hsignature
    obtain ⟨rfl, -⟩ := readString_eq_some.mp hread
    exact hitem
  · cases h

/-- The MAC of a statement, on a message: an honest party made it. -/
theorem said_of_sign {history : List BusEvent} {raw : Json} {s : Statement} {signature : JSString}
    (hunforged : P.Unforged history raw)
    (hmember : raw.member? (str "signature") = some (.string signature))
    (hsign : s.sign P.crypto P.secret = some signature) :
    ∃ s', P.Said history s' ∧ s'.sign P.crypto P.secret = some signature ∧ s.Agrees s' := by
  obtain ⟨text, htext, rfl⟩ := Option.map_eq_some_iff.mp hsign
  obtain ⟨s', hsaid, htext'⟩ := hunforged text hmember
  exact ⟨s', hsaid, Option.map_eq_some_iff.mpr ⟨text, htext', rfl⟩,
    Statement.agrees_of_canonical htext htext'⟩

theorem signed_of_said_request {history : List BusEvent} {m : RequestMeta} {payload : Value}
    (h : P.Said history (.envelope .request m payload)) :
    ∃ call e, .signed call e ∈ history ∧ e.requestMeta = m ∧ e.payload = payload := by
  rcases h with h | ⟨event, hmem, h⟩
  · cases h
  · generalize hs : Statement.envelope .request m payload = s at h
    cases h with
    | request call e =>
        obtain ⟨-, hm, hpayload⟩ := Statement.envelope.inj hs
        exact ⟨call, e, hmem, hm.symm, hpayload.symm⟩
    | event => cases hs
    | reply => cases hs

/-- An event that was said was said by a service that admitted the message and whose handler
has returned. -/
theorem settled_of_said_event {history : List BusEvent} {m : RequestMeta} {payload : Value}
    (h : P.Said history (.envelope .event m payload)) :
    ∃ d data published b body, .settled d (.returned data) published ∈ history ∧
      P.screen d = .admitted b m body := by
  rcases h with h | ⟨event, hmem, h⟩
  · cases h
  · generalize hs : Statement.envelope .event m payload = s at h
    cases h with
    | request call e => cases hs
    | @event d b m' body execution published subject e hscreen hevent =>
        obtain ⟨-, henvelope, data, rfl⟩ := settle_event hevent
        obtain ⟨hm', -, -⟩ := eventEnvelope_eq_some.mp henvelope
        obtain ⟨-, hm, -⟩ := Statement.envelope.inj hs
        obtain rfl : m = m' := hm.trans hm'
        exact ⟨d, data, published, b, body, hmem, hscreen⟩
    | reply => cases hs

theorem replies_of_said {history : List BusEvent} {binding : ReplyBinding} {data : Value}
    (h : P.Said history (.reply binding data)) (hrouted : binding.operation ≠ unrouted.operation) :
    ∃ event ∈ history, ∃ d route reply, P.Replies event d route reply ∧
      reply.statement route = .reply binding data := by
  rcases h with h | ⟨event, hmem, h⟩
  · obtain ⟨rfl, -⟩ := Statement.reply.inj h
    exact absurd rfl hrouted
  · generalize hs : Statement.reply binding data = s at h
    cases h with
    | request call e => cases hs
    | event => cases hs
    | reply hreply => exact ⟨event, hmem, _, _, _, hreply, rfl⟩

/-- A message whose signature an honest party has made for a statement it said is no
forgery. -/
theorem unforged_of_said {history : List BusEvent} {raw : Json} {s : Statement}
    {signature : JSString} (hsaid : P.Said history s)
    (hsign : s.sign P.crypto P.secret = some signature)
    (hmember : raw.member? (str "signature") = some (.string signature)) :
    P.Unforged history raw := by
  intro text htext
  obtain ⟨text', htext', rfl⟩ := Option.map_eq_some_iff.mp hsign
  have hsame := Json.string.inj (Option.some.inj (hmember.symm.trans htext))
  obtain rfl := P.crypto.hmac_injective P.secret hsame
  exact ⟨s, hsaid, htext'⟩

/-- Every envelope the gateway signs, for a caller or for itself, carries the MAC of its own
meta and payload. -/
theorem sign_of_signs {e : Envelope} (h : P.Signs e) :
    (Statement.envelope .request e.requestMeta e.payload).sign P.crypto P.secret =
      some e.signature := by
  rcases h with ⟨args, deps, hprepare⟩ | ⟨orgId, resource, operation, requestId, issuedAt, hsigned⟩
  · obtain ⟨identity, rule, hp⟩ := prepared_of_prepare hprepare
    exact hp.signed
  · unfold signedEnvelopeFor at hsigned
    obtain ⟨signature, hsign, rfl⟩ := Option.map_eq_some_iff.mp hsigned
    exact hsign

/-- A call that was signed in a run was signed by the gateway. -/
theorem signs_of_mem {history : List BusEvent} (hrun : P.Run history) {call : ℕ} {e : Envelope}
    (h : .signed call e ∈ history) : P.Signs e := by
  obtain ⟨earlier, -, -, hallowed⟩ := hrun.allowed_of_mem h
  exact hallowed.1

/-- An envelope on the wire is no forgery once it was signed. -/
theorem unforged_wire {history : List BusEvent} {call : ℕ} {e : Envelope} (hsigns : P.Signs e)
    (hmem : .signed call e ∈ history) (p : Json) : P.Unforged history (e.wire p) :=
  unforged_of_said (Or.inr ⟨_, hmem, .request call e⟩) (sign_of_signs hsigns) rfl

/-- An envelope that is not forged and verifies has the signature of one that the gateway
signed in the run. -/
theorem signed_of_verified {history : List BusEvent} (hrun : P.Run history) {raw : Json}
    {e : Envelope} (hunforged : P.Unforged history raw) (hparse : parseEnvelope P.reg raw = some e)
    (hverify : verifyRequest P.crypto e.requestMeta e.payload e.signature P.secret = true) :
    ∃ call e', .signed call e' ∈ history ∧ e'.signature = e.signature ∧
      e.requestMeta.Agrees e'.requestMeta ∧ SameProjection e.payload e'.payload := by
  obtain ⟨s, hsaid, hsign, hagrees⟩ := said_of_sign hunforged (signature_of_parseEnvelope hparse)
    (verifyRequest_iff.mp hverify)
  cases s with
  | envelope domain m' payload' =>
      obtain ⟨rfl, hm, hpayload⟩ := hagrees
      obtain ⟨call, e', hmem, rfl, rfl⟩ := signed_of_said_request hsaid
      have hsigned := (sign_of_signs (signs_of_mem hrun hmem)).symm.trans hsign
      exact ⟨call, e', hmem, Option.some.inj hsigned, hm, hpayload⟩
  | reply => cases hagrees

/-- The runtime under a service's name answers for that service: booting it keeps the name.
-/
theorem service_name (name : ServiceName) : (P.service name).service = name := by
  obtain ⟨handlers, hboot⟩ := P.booted name
  exact defineService_service hboot

end Platform

end Guardrail
