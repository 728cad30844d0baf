import GuardrailPlatform.Bus
import GuardrailPlatform.HonestMessages

/-!
# Requests and events are authentic

Whatever the adversary delivers, a handler runs only on what the gateway
signed for it, and a consumer only on what an owning service completed.  The
argument is the same for both: the gates verify a MAC, a MAC has a signer, and
of the honest parties only one signs statements of that kind.
-/

namespace Guardrail

open Js

variable {Effect : Type*}

namespace Platform

/-- What stands behind a handler's run on `payload` under `m`. -/
structure RequestAuthentic (P : Platform Effect) (history : List BusEvent) (d : Delivery)
    (entry : HandlerEntry Effect) (m : RequestMeta) (payload : Value) : Prop where
  signed : ∃ call e, .signed call e ∈ history ∧
    signRequest P.crypto e.requestMeta e.payload P.secret = some e.signature ∧
    m.Agrees e.requestMeta ∧ SameProjection payload e.payload ∧
    toPermission entry.resource entry.operation ∈ e.requestMeta.permissions
  owned : ∃ r, P.reg.findRoute entry.resource entry.operation = some r ∧ r.owner = d.service ∧
    d.subject = r.subject
  entry : entry.resource = m.resource ∧ entry.operation = m.operation

/-- What stands behind a consumer's run on `m`. -/
structure EventAuthentic (P : Platform Effect) (history : List BusEvent) (m : RequestMeta)
    (subject : JSString) : Prop where
  completed : ∃ d data published b m' payload, .settled d (.returned data) published ∈ history ∧
    P.screen d = .admitted b m' payload ∧ m.Agrees m' ∧
    P.reg.ownerOf m.resource = some d.service
  subject : ∃ r, P.reg.findRoute m.resource m.operation = some r ∧ r.event = some subject

variable {P : Platform Effect}

/-- **Requests.** What reaches a handler was signed by the gateway, for the handler's own
operation. -/
theorem requestAuthentic_of_screen {history : List BusEvent} (hrun : P.Run history) {d : Delivery}
    (hunforged : P.Unforged history d.raw) {b : Binding Effect} {m : RequestMeta} {payload : Value}
    (hscreen : P.screen d = .admitted b m payload) :
    P.RequestAuthentic history d b.entry m payload := by
  obtain ⟨r, hpassed⟩ := passed_of_screen hscreen
  obtain ⟨signature, hparse, hverify⟩ := hpassed.signed
  obtain ⟨call, e, hmem, -, hagrees, hpayload⟩ := signed_of_verified hrun hunforged hparse hverify
  obtain ⟨hresource, hoperation⟩ := hpassed.entry
  have hpermitted : toPermission b.entry.resource b.entry.operation ∈ e.requestMeta.permissions := by
    rw [hresource, hoperation]
    exact hagrees.2.subset hpassed.permitted
  have howner : r.owner = d.service := hpassed.owned.trans (P.service_name d.service)
  exact
    { signed := ⟨call, e, hmem, sign_of_signs (signs_of_mem hrun hmem), hagrees, hpayload,
        hpermitted⟩
      owned := ⟨r, by rw [hresource, hoperation]; exact hpassed.declared, howner, hpassed.subject⟩
      entry := hpassed.entry }

/-- The service that a route names as its owner owns the resource of the route. -/
theorem ownerOf_of_findRoute {reg : Registry} {resource : ResourceKey} {operation : Operation}
    {r : SubjectRoute} (h : reg.findRoute resource operation = some r) :
    reg.ownerOf resource = some r.owner := by
  obtain ⟨hmem, hresource, -⟩ := Registry.findRoute_eq_some.mp h
  obtain ⟨resource', d, operation', rule, hd, -, rfl⟩ := Registry.mem_routes.mp hmem
  obtain rfl : resource' = resource := hresource
  rw [Registry.ownerOf, hd]
  rfl

/-- **Events.** What reaches a consumer's callback was signed by the service that owns the
operation. -/
theorem eventAuthentic_of_consume {history : List BusEvent} {raw : Json} {subject : JSString}
    (hunforged : P.Unforged history raw) {m : RequestMeta}
    (hconsume : P.consume raw subject = some m) : P.EventAuthentic history m subject := by
  obtain ⟨payload, signature, r, hparse, hverify, -, hroute, hevent⟩ := consume_eq_some.mp hconsume
  obtain ⟨s, hsaid, -, hagrees⟩ := said_of_sign hunforged (signature_of_parseEnvelope hparse)
    (verifyEvent_iff.mp hverify)
  cases s with
  | reply => cases hagrees
  | envelope domain m' payload' =>
      obtain ⟨rfl, hm, -⟩ := hagrees
      obtain ⟨d, data, published, b, body, hsettled, hscreen⟩ := settled_of_said_event hsaid
      obtain ⟨r', hpassed⟩ := passed_of_screen hscreen
      have howner : P.reg.ownerOf m'.resource = some d.service := by
        rw [ownerOf_of_findRoute hpassed.declared, hpassed.owned, P.service_name]
      have hresource : m.resource = m'.resource := by rw [hm.1]
      exact ⟨⟨d, data, published, b, m', body, hsettled, hscreen, hm, hresource ▸ howner⟩, r, hroute,
        hevent⟩

/-! ## Over a whole run -/

/-- Every handler's run and every consumer's callback in the history is backed by it. -/
def Authentic (P : Platform Effect) (history : List BusEvent) : Prop :=
  (∀ later d earlier b m payload, history = later ++ .delivered d :: earlier →
    P.screen d = .admitted b m payload → P.RequestAuthentic earlier d b.entry m payload) ∧
  ∀ later raw subject earlier m, history = later ++ .consumed raw subject :: earlier →
    P.consume raw subject = some m → P.EventAuthentic earlier m subject

/-- **Request and event authenticity**, in every run of the platform and for every message,
whoever moved or made it. -/
theorem requests_and_events_authentic (P : Platform Effect) (history : List BusEvent)
    (hrun : P.Run history) : P.Authentic history := by
  constructor
  · rintro later d earlier b m payload rfl hscreen
    obtain ⟨hearlier, hallowed⟩ := hrun.allowed
    exact requestAuthentic_of_screen hearlier hallowed.1 hscreen
  · rintro later raw subject earlier m rfl hconsume
    obtain ⟨-, hallowed⟩ := hrun.allowed
    exact eventAuthentic_of_consume hallowed hconsume

end Platform

/-! ## A removed project -/

def remover : GatewayIdentity := { userId := str "ada", orgId := str "acme", role := .admin }

/-- `project.delete`. -/
def removeCall (id : JSString) : DispatchArgs :=
  { requestId := str "request-1", resource := str "project", operation := .delete,
    input := .object [(str "id", .string id)] }

def removeAnswers : DepsAnswers :=
  { identity := some remover
    verdict := { ok := true, retryAfterSeconds := 0 }
    entitlements := { plan := str "free", usage := fun _ => none }
    issuedAt := 1000 }

/-- What is signed beside the body. -/
def removeMeta : RequestMeta :=
  metaFor registry (removeCall []) remover (mutationRule .admin false 5000) removeAnswers

def removeBody (id : JSString) : Json := .object [(str "id", .string id)]

/-- Every gate of the gateway lets the removal through, whichever project it names. -/
theorem remove_honest (crypto : Crypto) (secret id : JSString) : ∃ e,
    HonestCall crypto secret registry (contractFor roughFormats) (removeCall id) removeAnswers e ∧
    e.requestMeta = removeMeta ∧ e.payload = (removeBody id).toValue := by
  obtain ⟨signature, hsign⟩ := @Statement.sign_isSome crypto
    (.envelope .request removeMeta (removeBody id).toValue) _ (canonicalJson_toValue _) secret
  have hprepare := @prepare_of_passes crypto secret registry (contractFor roughFormats)
    (removeCall id) removeAnswers remover (mutationRule .admin false 5000)
    (removeBody id).toValue signature rfl rfl (by decide) rfl rfl rfl rfl rfl hsign
  have hid : 8 ≤ (str "request-1").length := by decide
  refine ⟨_, ⟨hprepare, hid, ?_, by decide⟩, rfl, rfl⟩
  intro identity hidentity
  obtain rfl := Option.some.inj hidentity
  decide


/-- The shipped platform, its secret known. -/
def shippedPlatform : Platform Unit :=
  .ofRegistry .transparent (str "secret") registry (contractFor roughFormats) fun _ _ _ => ()

/-- The message of a call, on its subject. -/
def removeDelivery (handling : ℕ) (raw : Json) : Delivery :=
  { handling, service := .projects, raw, subject := rpcSubject (str "project") .delete, now := 1000 }

/-- The removal's envelope is admitted by any projects service that receives it. -/
theorem remove_reaches {Effect : Type*} {id : JSString} {e : Envelope}
    (hcall : HonestCall .transparent (str "secret") registry (contractFor roughFormats)
      (removeCall id) removeAnswers e)
    (hmeta : e.requestMeta = removeMeta) (hpayload : e.payload = (removeBody id).toValue)
    (rt : ServiceRuntime registry Effect) (hservice : rt.service = .projects) :
    ∃ b, screen .transparent (str "secret") rt (e.wire (removeBody id))
        (rpcSubject (str "project") .delete) 1000 =
      .admitted b removeMeta (removeBody id).toValue ∧
      b.entry.resource = str "project" ∧ b.entry.operation = .delete := by
  have hsafe : ClocksSafe e := by
    rw [ClocksSafe, hmeta]
    decide
  have harrives : Arrives e (mutationRule .admin false 5000).transport 1000 1000 := by
    constructor
    · rw [hmeta]
      decide
    · decide
    · intro _
      rw [hmeta]
      decide
  have hbody : project e.payload = .json (removeBody id) := by rw [hpayload]; rfl
  have howner : registry.ownerOf (removeCall id).resource = some rt.service := by
    rw [hservice]
    rfl
  obtain ⟨b, hscreen, hentry⟩ := call_reaches hcall hsafe rfl (by decide) howner harrives hbody
  rw [hmeta] at hscreen
  exact ⟨b, hscreen, hentry⟩

/-- The projects service of the shipped platform admits the example's removal as it was
signed. -/
theorem remove_admitted {id : JSString} {e : Envelope}
    (hcall : HonestCall .transparent (str "secret") registry (contractFor roughFormats)
      (removeCall id) removeAnswers e)
    (hmeta : e.requestMeta = removeMeta) (hpayload : e.payload = (removeBody id).toValue)
    (handling : ℕ) :
    ∃ b, shippedPlatform.screen (removeDelivery handling (e.wire (removeBody id))) =
      .admitted b removeMeta (removeBody id).toValue := by
  obtain ⟨b, hscreen, -⟩ := remove_reaches hcall hmeta hpayload (shippedPlatform.service .projects) rfl
  exact ⟨b, hscreen⟩

/-- What the projects service makes of the removal: a reply, and an event that
its consumers accept. -/
theorem remove_settles {d : Delivery} {b : Binding Unit} {payload : Value}
    (hscreen : shippedPlatform.screen d = .admitted b removeMeta payload) (data : Json) :
    ∃ signature event raw, shippedPlatform.settle b removeMeta (.returned data.toValue) true =
        { event := some (str "evt.project.delete", event),
          reply := some (.ok removeMeta.requestId signature data.toValue) } ∧
      eventEnvelope .transparent (str "secret") removeMeta = some event ∧
      encode event.toValue = some raw ∧
      shippedPlatform.consume raw (str "evt.project.delete") = some removeMeta := by
  obtain ⟨r, hpassed⟩ := passed_of_screen hscreen
  have hroute : b.route.event = some (str "evt.project.delete") := by
    have hdeclared : registry.findRoute (str "project") .delete = some r := hpassed.declared
    rw [hpassed.bound.2]
    obtain rfl := Option.some.inj hdeclared
    rfl
  obtain ⟨signature, hsucceed⟩ := @succeed_of_canonical .transparent (str "secret") removeMeta _ _
    (canonicalJson_toValue data)
  obtain ⟨event, henvelope, hsettle⟩ := @settle_returned .transparent (str "secret") b.route _
    removeMeta data.toValue true hroute
  rw [if_pos rfl, hsucceed] at hsettle
  obtain ⟨raw, hraw, hconsume⟩ := event_consumed hscreen (congrArg Settled.event hsettle)
  exact ⟨signature, event, raw, hsettle, henvelope, hraw, hconsume⟩

/-- A project is removed on the shipped platform: the call, its handling and its event are
authentic. -/
theorem shipped_remove_authentic : ∃ e b raw history,
    history = [.consumed raw (str "evt.project.delete"),
      .settled (removeDelivery 0 (e.wire (removeBody (str "p1")))) (.returned (.object [])) true,
      .delivered (removeDelivery 0 (e.wire (removeBody (str "p1")))), .signed 0 e] ∧
    shippedPlatform.screen (removeDelivery 0 (e.wire (removeBody (str "p1")))) =
      .admitted b removeMeta (removeBody (str "p1")).toValue ∧
    shippedPlatform.consume raw (str "evt.project.delete") = some removeMeta ∧
    shippedPlatform.Authentic history := by
  obtain ⟨e, hcall, hmeta, hpayload⟩ := remove_honest .transparent (str "secret") (str "p1")
  obtain ⟨b, hscreen⟩ := remove_admitted hcall hmeta hpayload 0
  have hsigns : shippedPlatform.Signs e := .inl ⟨_, _, hcall.prepared⟩
  obtain ⟨signature, event, raw, hsettle, henvelope, hraw, hconsume⟩ := remove_settles hscreen (.object [])
  obtain ⟨hm, hbody, hsign⟩ := eventEnvelope_eq_some.mp henvelope
  obtain rfl := Option.some.inj ((encode_envelope (by rw [hbody]; rfl)).symm.trans hraw)
  refine ⟨e, b, _, _, rfl, hscreen, hconsume, ?_⟩
  refine shippedPlatform.requests_and_events_authentic _ ?_
  have hsigned : shippedPlatform.Run [.signed 0 e] :=
    .next .start ⟨hsigns, fun _ => List.not_mem_nil⟩
  refine .next (.next (.next hsigned ⟨?_, ?_⟩) ⟨List.mem_cons_self, ⟨b, _, _, hscreen⟩, ?_⟩) ?_
  · exact Platform.unforged_wire hsigns List.mem_cons_self _
  · simp
  · simp
  · refine Platform.unforged_of_said 
      (.inr ⟨_, List.mem_cons_self, .event hscreen (congrArg Settled.event hsettle)⟩) ?_ rfl
    rw [hm, hbody]
    exact hsign

end Guardrail
