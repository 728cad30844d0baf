import GuardrailPlatform.Contracts

/-!
# Honest messages are accepted

The gateway and the services were written separately and meet only on the
wire.  What the gateway signs reaches a handler; the event a service publishes
passes every consumer; the reply a service builds is accepted by the call it
answers.  In each case the argument is the same: the sender's meta is valid, a
valid meta survives the codec, and the MAC of a body survives it too.

The one limit is the schema's own: clock fields are safe integers, so a
deadline past 2^53 - 1 is refused however honest.
-/

namespace Guardrail

open Js

universe u

variable {crypto : Crypto} {secret : JSString} {reg : Registry} {contracts : ContractMap}
  {Effect : Type*}

/-! ## Requests -/

/-- A call the gateway signs, for a session and a plan that exist. -/
structure HonestCall (crypto : Crypto) (secret : JSString) (reg : Registry)
    (contracts : ContractMap) (args : DispatchArgs) (deps : DepsAnswers) (e : Envelope) : Prop where
  prepared : prepare crypto secret reg contracts args deps = .ok e
  requestId : 8 ≤ args.requestId.length
  userId : ∀ identity, deps.identity = some identity → 1 ≤ identity.userId.length
  plan : reg.isPlanKey deps.entitlements.plan = true

/-- The clocks when an envelope arrives: `t` on the gateway's, `now` on the
service's.  Only an rpc has to be there before its deadline. -/
structure Arrives (e : Envelope) (transport : Transport) (t now : ℤ) : Prop where
  issued : e.requestMeta.issuedAt ≤ t
  skew : |now - t| ≤ clockSkewMs
  deadline : transport = .rpc → t < e.requestMeta.deadlineAt

/-- The clock fields of an envelope are integers the schema reads. -/
def ClocksSafe (e : Envelope) : Prop :=
  IsSafe e.requestMeta.issuedAt ∧ IsSafe e.requestMeta.deadlineAt

/-- An honest call's meta passes the envelope schema, if its clocks are safe
integers. -/
theorem HonestCall.valid {args : DispatchArgs} {deps : DepsAnswers} {e : Envelope}
    (h : HonestCall crypto secret reg contracts args deps e) (hsafe : ClocksSafe e) :
    e.requestMeta.Valid reg := by
  obtain ⟨identity, rule, hp⟩ := prepared_of_prepare h.prepared
  obtain ⟨d, hd⟩ := Registry.resource?_of_ruleFor hp.declared
  have hm := hp.requestMeta
  obtain ⟨hissued, hdeadline⟩ := hsafe
  rw [hm] at hissued hdeadline ⊢
  exact
    { requestId := h.requestId
      orgId := hp.orgId
      userId := h.userId identity hp.identified
      plan := h.plan
      resource := Registry.isResourceKey_iff.mpr ⟨d, hd⟩
      deadlineAt := hdeadline
      issuedAt := hissued }

/-- An envelope that arrives in time, with a declared budget, is fresh. -/
theorem fresh_of_arrives {m : RequestMeta} {rule : OperationRule} {e : Envelope} {t now : ℤ}
    (hrule : reg.ruleFor m.resource m.operation = some rule) (hpositive : 0 < rule.timeoutMs)
    (hbudget : m.deadlineAt = m.issuedAt + rule.timeoutMs) (he : e.requestMeta = m)
    (harrives : Arrives e rule.transport t now) :
    checkFreshness reg m rule.transport now = .fresh := by
  have hmax := Registry.timeoutMs_le_max hrule
  have hskew := abs_le.mp harrives.skew
  have hissued := harrives.issued
  have hdeadline := harrives.deadline
  rw [he] at hissued hdeadline
  have hpast : ¬ m.issuedAt > now + clockSkewMs := by omega
  have hwidth : ¬ (m.deadlineAt - m.issuedAt ≤ 0 ∨
      m.deadlineAt - m.issuedAt > reg.maxTimeoutMs + clockSkewMs) := by
    unfold clockSkewMs
    omega
  have hwaiting : ¬ (rule.transport = .rpc ∧ m.deadlineAt + clockSkewMs ≤ now) := by
    intro ⟨hrpc, hlate⟩
    have := hdeadline hrpc
    omega
  simp only [checkFreshness, hpast, hwidth, hwaiting, if_false]

/-- A body whose role is a string, or absent, names the same role after the codec. -/
theorem namedRole_of_project {v : Value} {p : Json} (hp : project v = .json p)
    (hstring : ∀ role, v.member? (str "role") = some role → ∃ name, role = .string name) :
    namedRole p.toValue = namedRole v := by
  cases v with
  | object members =>
      rw [project] at hp
      split at hp
      · rename_i ps hps
        obtain rfl := Serialized.json.inj hp
        have hlookup := lookup_projectMembers hps hstring
        simp only [namedRole, Json.toValue, Value.member?, lookup_toMembers]
        cases hrole : members.lookup (str "role") with
        | none =>
            rw [hrole, Option.map_none, eq_comm, Option.map_eq_none_iff] at hlookup
            rw [hlookup]
            rfl
        | some named =>
            obtain ⟨name, rfl⟩ := hstring named hrole
            rw [hrole, Option.map_some, eq_comm, Option.map_eq_some_iff] at hlookup
            obtain ⟨j, hj, hsame⟩ := hlookup
            obtain rfl := Serialized.json.inj hsame
            rw [hj]
            rfl
      · cases hp
  | array items =>
      rw [project] at hp
      split at hp
      · obtain rfl := Serialized.json.inj hp
        rfl
      · cases hp
  | number x =>
      cases x <;> obtain rfl := Serialized.json.inj hp <;> rfl
  | date t =>
      cases t <;> obtain rfl := Serialized.json.inj hp <;> rfl
  | null =>
      obtain rfl := Serialized.json.inj hp
      rfl
  | bool b =>
      obtain rfl := Serialized.json.inj hp
      rfl
  | string s =>
      obtain rfl := Serialized.json.inj hp
      rfl
  | undefined => cases hp
  | bigint n => cases hp
  | symbol => cases hp
  | function => cases hp

/-- A schema that keeps roles lets nothing past the second escalation check
that the first one stopped. -/
theorem unescalated_of_input {contract : Contract} {input payload : Value} {role : OrgRole}
    {p : Json} (hinput : refusedRole input role = none)
    (hpayload : contract.input input = some payload) (hp : project payload = .json p) :
    refusedRole p.toValue role = none := by
  have hstring : ∀ role, payload.member? (str "role") = some role → ∃ name, role = .string name := by
    intro role hrole
    obtain ⟨name, hname, -⟩ := contract.keepsRole input payload hpayload role hrole
    exact ⟨name, hname⟩
  rw [refusedRole, namedRole_of_project hp hstring]
  cases hrole : payload.member? (str "role") with
  | none => rw [namedRole, hrole]
  | some named =>
      obtain ⟨name, rfl, hnamed⟩ := contract.keepsRole input payload hpayload named hrole
      have hpayloadRole : namedRole payload = some name := by rw [namedRole, hrole]
      rw [hpayloadRole]
      rwa [refusedRole, hnamed] at hinput

/-- **Requests.**  An honest call is encoded, and the service that owns its resource admits
it with the same meta and payload. -/
theorem request_admitted {args : DispatchArgs} {deps : DepsAnswers} {e : Envelope}
    {rule : OperationRule} {rt : ServiceRuntime reg Effect} {t now : ℤ}
    (hcall : HonestCall crypto secret reg contracts args deps e) (hsafe : ClocksSafe e)
    (hrule : reg.ruleFor args.resource args.operation = some rule) (hpositive : 0 < rule.timeoutMs)
    (howner : reg.ownerOf args.resource = some rt.service)
    (harrives : Arrives e rule.transport t now) :
    ∃ raw p b, encode e.toValue = some raw ∧ project e.payload = .json p ∧
      screen crypto secret rt raw (dispatchSubject rule args.resource args.operation) now =
        .admitted b e.requestMeta p.toValue ∧
      b.entry.resource = args.resource ∧ b.entry.operation = args.operation := by
  obtain ⟨identity, rule', hp⟩ := prepared_of_prepare hcall.prepared
  obtain rfl : rule' = rule := Option.some.inj (hp.declared.symm.trans hrule)
  obtain ⟨d, hd⟩ := Registry.resource?_of_ruleFor hrule
  have hm := hp.requestMeta
  have hresource : e.requestMeta.resource = args.resource := by rw [hm]; rfl
  have hoperation : e.requestMeta.operation = args.operation := by rw [hm]; rfl
  have hsigned : (Statement.envelope .request e.requestMeta e.payload).sign crypto secret =
      some e.signature := hp.signed
  obtain ⟨p, hproject⟩ := project_of_sign hsigned
  have hparse : parseEnvelope reg (e.wire p) = some { e with payload := p.toValue } :=
    parse_wire p (hcall.valid hsafe) (length_of_sign hsigned)
  have hverify : verifyRequest crypto e.requestMeta p.toValue e.signature secret = true :=
    verifyRequest_iff.mpr (sign_envelope_of_project hsigned hproject)
  have hroute : reg.findRoute e.requestMeta.resource e.requestMeta.operation =
      some (Registry.routeOf args.resource d.owner args.operation rule') := by
    rw [hresource, hoperation]
    exact Registry.findRoute_of_rule hd hrule
  have hservice : d.owner = rt.service := by
    rw [Registry.ownerOf, hd, Option.map_some] at howner
    exact Option.some.inj howner
  have hsubject : dispatchSubject rule' args.resource args.operation =
      (Registry.routeOf args.resource d.owner args.operation rule').subject := by
    rw [dispatchSubject, Registry.routeOf]
    cases rule'.transport <;> rfl
  have hfresh : checkFreshness reg e.requestMeta rule'.transport now = .fresh :=
    fresh_of_arrives (by rw [hresource, hoperation]; exact hrule) hpositive (by rw [hm]; rfl) rfl
      harrives
  have hpermitted : toPermission e.requestMeta.resource e.requestMeta.operation ∈
      e.requestMeta.permissions := by
    rw [hresource, hoperation, hm]
    exact hp.permitted
  have hunescalated : refusedRole p.toValue e.requestMeta.role = none := by
    rw [hm]
    exact unescalated_of_input hp.unescalated hp.payload hproject
  obtain ⟨b, hscreen, hbresource, hboperation⟩ := screen_of_passes hparse hverify hroute hservice
    hsubject hfresh hpermitted hunescalated
  exact ⟨e.wire p, p, b, encode_envelope hproject, hproject, hscreen, hbresource.trans hresource,
    hboperation.trans hoperation⟩

/-! ## Events -/

theorem project_successPayload :
    ∃ p, project successPayload = .json p ∧ isEventPayload p.toValue = true :=
  ⟨.object [(str "outcome", .string (str "success"))], rfl, by decide⟩

/-- An honest call whose body is known reaches its service's handler, as it was sent. -/
theorem call_reaches {args : DispatchArgs} {deps : DepsAnswers} {e : Envelope}
    {rule : OperationRule} {rt : ServiceRuntime reg Effect} {t now : ℤ} {body : Json}
    (hcall : HonestCall crypto secret reg contracts args deps e) (hsafe : ClocksSafe e)
    (hrule : reg.ruleFor args.resource args.operation = some rule) (hpositive : 0 < rule.timeoutMs)
    (howner : reg.ownerOf args.resource = some rt.service)
    (harrives : Arrives e rule.transport t now) (hbody : project e.payload = .json body) :
    ∃ b, screen crypto secret rt (e.wire body)
        (dispatchSubject rule args.resource args.operation) now =
      .admitted b e.requestMeta body.toValue ∧
      b.entry.resource = args.resource ∧ b.entry.operation = args.operation := by
  obtain ⟨raw, p, b, hraw, hp, hscreen, hentry⟩ :=
    request_admitted hcall hsafe hrule hpositive howner harrives
  obtain rfl := Serialized.json.inj (hbody.symm.trans hp)
  obtain rfl := Option.some.inj ((encode_envelope hbody).symm.trans hraw)
  exact ⟨b, hscreen, hentry⟩

/-- **Events.** What a service publishes about an admitted call passes every check of its
consumers. -/
theorem event_consumed {rt : ServiceRuntime reg Effect} {raw : Json} {subject eventSubject : JSString}
    {now : ℤ} {b : Binding Effect} {m : RequestMeta} {payload : Value} {execution : Execution}
    {published : Bool} {event : Envelope}
    (hscreen : screen crypto secret rt raw subject now = .admitted b m payload)
    (hevent : (settle crypto secret b.route m execution published).event =
      some (eventSubject, event)) :
    ∃ sent, encode event.toValue = some sent ∧
      consume crypto secret reg sent eventSubject = some m := by
  obtain ⟨r, hpassed⟩ := passed_of_screen hscreen
  obtain ⟨signature, hparse, -⟩ := hpassed.signed
  obtain ⟨hroute, henvelope, -⟩ := settle_event hevent
  obtain ⟨hm, hpayload, hsigned⟩ := eventEnvelope_eq_some.mp henvelope
  obtain ⟨p, hproject, hbody⟩ := project_successPayload
  have hvalid : m.Valid reg := valid_of_parseEnvelope hparse
  have hsent : parseEnvelope reg (event.wire p) = some { event with payload := p.toValue } :=
    parse_wire p (hm ▸ hvalid) (length_of_sign hsigned)
  have hverify : verifyEvent crypto m p.toValue event.signature secret = true :=
    verifyEvent_iff.mpr (sign_envelope_of_project hsigned hproject)
  refine ⟨event.wire p, encode_envelope (by rw [hpayload]; exact hproject), ?_⟩
  refine consume_eq_some.mpr ⟨p.toValue, event.signature, r, ?_, hverify, hbody,
    hpassed.declared, ?_⟩
  · rw [hsent, hm]
  · rw [hpassed.bound.2] at hroute
    exact hroute

/-! ## Replies -/

/-- What the sender of an envelope receives, where it is bound to the envelope's meta. -/
structure Received (crypto : Crypto) (secret : JSString) (subject : JSString) (e : Envelope)
    (reply : ReplyEnvelope) (sent : Json) (received : ReplyEnvelope) : Prop where
  encoded : encode reply.toValue = some sent
  accepted : rpcRequest crypto secret subject e sent = .ok received
  proved : proveAnswer crypto secret e received = none
  isOk : received.isOk = reply.isOk
  signature : received.signature = reply.signature
  answered : ∃ p, project reply.answered = .json p ∧ received.answered = p.toValue
  same : SameProjection received.answered reply.answered

/-- A reply bound to an envelope's meta is accepted by the call that sent it. -/
theorem reply_accepted {e : Envelope} {reply : ReplyEnvelope} (subject : JSString)
    (hrequest : 1 ≤ e.requestMeta.requestId.length)
    (hanswers : Answers crypto secret e.requestMeta.replyRoute reply) :
    ∃ sent received, Received crypto secret subject e reply sent received := by
  have hsigned := hanswers.signed
  obtain ⟨p, hproject⟩ := project_of_sign hsigned
  have hid : reply.requestId = e.requestMeta.requestId := hanswers.requestId
  obtain ⟨sent, received, hsent, hparse, hok, hreceived, hsignature, hbody⟩ :=
    parse_encode_reply (by rw [hid]; exact hrequest) (length_of_sign hsigned) hproject
  have hverify : verifyReply crypto (replyBindingOf e.requestMeta received.isOk) received.answered
      received.signature secret = true := by
    rw [verifyReply_iff, hok, hbody, hsignature]
    exact sign_reply_of_project hsigned hproject
  have haccepted : rpcRequest crypto secret subject e sent = .ok received :=
    rpcRequest_ok.mpr ⟨hparse, hreceived.trans hid, hverify⟩
  have hagrees : (Statement.reply (replyBindingOf e.requestMeta received.isOk)
      received.answered).Agrees (reply.statement e.requestMeta.replyRoute) :=
    Statement.agrees_of_sign (verifyReply_iff.mp hverify) (by rw [hsignature]; exact hsigned)
  exact ⟨sent, received, hsent, haccepted, proveAnswer_of_rpcRequest haccepted, hok, hsignature,
    ⟨p, hproject, hbody⟩, hagrees.2⟩

/-! ## All three -/

/-- Honest calls with the demanded clock fields reach their handlers. -/
def RequestsReach (crypto : Crypto) (secret : JSString) (reg : Registry) (contracts : ContractMap)
    (demand : Envelope → Prop) : Prop :=
  ∀ (Effect : Type u) (args : DispatchArgs) (deps : DepsAnswers) (e : Envelope)
    (rule : OperationRule) (service : ServiceName) (handlers : List (HandlerEntry Effect))
    (rt : ServiceRuntime reg Effect) (t now : ℤ),
    HonestCall crypto secret reg contracts args deps e → demand e →
    reg.ruleFor args.resource args.operation = some rule →
    reg.ownerOf args.resource = some service → defineService reg service handlers = .ok rt →
    Arrives e rule.transport t now →
    ∃ raw p b, encode e.toValue = some raw ∧ project e.payload = .json p ∧
      screen crypto secret rt raw (dispatchSubject rule args.resource args.operation) now =
        .admitted b e.requestMeta p.toValue ∧
      b.entry.resource = args.resource ∧ b.entry.operation = args.operation

/-- Every event a service publishes reaches the callback of a consumer. -/
def EventsReach (crypto : Crypto) (secret : JSString) (reg : Registry) : Prop :=
  ∀ (Effect : Type u) (service : ServiceName) (handlers : List (HandlerEntry Effect))
    (rt : ServiceRuntime reg Effect) (raw : Json) (subject : JSString) (now : ℤ)
    (execute : HandlerEntry Effect → ServiceContext → Value → Execution) (published : Bool)
    (eventSubject : JSString) (event : Envelope),
    defineService reg service handlers = .ok rt →
    (handle crypto secret rt raw subject now execute published).event =
      some (eventSubject, event) →
    ∃ sent, encode event.toValue = some sent ∧
      consume crypto secret reg sent eventSubject = some event.requestMeta

/-- Every reply built for an envelope that parsed is accepted by its call. -/
def RepliesReach (crypto : Crypto) (secret : JSString) (reg : Registry) : Prop :=
  ∀ (Effect : Type u) (service : ServiceName) (handlers : List (HandlerEntry Effect))
    (rt : ServiceRuntime reg Effect) (e e' : Envelope) (p : Json) (subject replySubject : JSString)
    (now : ℤ) (execute : HandlerEntry Effect → ServiceContext → Value → Execution)
    (published : Bool),
    defineService reg service handlers = .ok rt → project e.payload = .json p →
    parseEnvelope reg (e.wire p) = some e' →
    (∀ entry ctx payload error, execute entry ctx payload = .refused error →
      ∃ text, canonicalJson error.toWire.toValue = some text) →
    ∃ reply sent received,
      (handle crypto secret rt (e.wire p) subject now execute published).reply = some reply ∧
      encode reply.toValue = some sent ∧
      rpcRequest crypto secret replySubject e sent = .ok received ∧
      proveAnswer crypto secret e received = none ∧ received.isOk = reply.isOk ∧
      SameProjection received.answered reply.answered

/-- **Honest messages are never refused**, as long as the clock fields are
integers the schema reads. -/
theorem honest_messages_accepted (crypto : Crypto) (secret : JSString) (reg : Registry)
    (contracts : ContractMap)
    (hpositive : ∀ resource operation rule, reg.ruleFor resource operation = some rule →
      0 < rule.timeoutMs) :
    RequestsReach.{u} crypto secret reg contracts ClocksSafe ∧ EventsReach.{u} crypto secret reg ∧
      RepliesReach.{u} crypto secret reg := by
  refine ⟨?_, ?_, ?_⟩
  · intro Effect args deps e rule service handlers rt t now hcall hsafe hrule howner hboot harrives
    have hservice := defineService_service hboot
    exact request_admitted hcall hsafe hrule (hpositive _ _ _ hrule) (hservice ▸ howner) harrives
  · intro Effect service handlers rt raw subject now execute published eventSubject event _ hevent
    unfold handle at hevent
    split at hevent
    · cases hevent
    · rename_i b m payload hscreen
      obtain ⟨sent, hsent, hconsumed⟩ := event_consumed hscreen hevent
      obtain ⟨-, henvelope, -⟩ := settle_event hevent
      rw [(eventEnvelope_eq_some.mp henvelope).1]
      exact ⟨sent, hsent, hconsumed⟩
  · intro Effect service handlers rt e e' p subject replySubject now execute published _ _ hparse
      hcanonical
    have hmeta := requestMeta_of_parse_wire hparse
    have hvalid : e.requestMeta.Valid reg := hmeta ▸ valid_of_parseEnvelope hparse
    obtain ⟨reply, hreply, hanswers⟩ :=
      @handle_answers Effect crypto secret reg rt (e.wire p) subject now e' execute published hparse
        hcanonical
    rw [hmeta] at hanswers
    obtain ⟨sent, received, hreceived⟩ :=
      reply_accepted replySubject (hvalid.requestId.trans' (by decide)) hanswers
    exact ⟨reply, sent, received, hreply, hreceived.encoded, hreceived.accepted, hreceived.proved,
      hreceived.isOk, hreceived.same⟩

/-- The shipped registry's timeouts are positive, so the requests of its honest calls reach
their handlers. -/
theorem shipped_requests_reach : RequestsReach.{0} .transparent (str "secret") registry
    (contractFor roughFormats) ClocksSafe :=
  (honest_messages_accepted .transparent (str "secret") registry (contractFor roughFormats)
    registry_timeouts_positive).1

/-! ## A declaration beyond safe integers -/

/-- A registry whose one operation is given 2^53 - 1 milliseconds. -/
def patientRegistry : Registry where
  plans := plans
  defaultPlan := defaultPlan
  resources := [(str "project", { projectResource with
    operations
      | .read => some (queryRule .member maxSafeInteger)
      | _ => none })]
  plans_nodup := registry.plans_nodup
  resources_nodup := by decide
  default_declared := registry.default_declared

def patientCall : DispatchArgs :=
  { requestId := str "request-1", resource := str "project", operation := .read,
    input := .object [] }

def patientAnswers : DepsAnswers :=
  { identity := some { userId := str "ada", orgId := str "acme", role := .member }
    verdict := { ok := true, retryAfterSeconds := 0 }
    entitlements := { plan := str "free", usage := fun _ => none }
    issuedAt := 1 }

/-- Issued at 1, the call's deadline is 2^53: the schema calls its honest
envelope malformed. -/
theorem patient_call_refused :
    (∀ resource operation rule, patientRegistry.ruleFor resource operation = some rule →
      0 < rule.timeoutMs) ∧
    ¬ RequestsReach.{0} .transparent (str "secret") patientRegistry (contractFor roughFormats)
      (fun _ => True) := by
  constructor
  · intro resource operation rule hrule
    have hall : (patientRegistry.resourceKeys.all fun resource => operations.all fun operation =>
        (patientRegistry.ruleFor resource operation).all fun rule =>
          decide (0 < rule.timeoutMs)) = true := by
      decide
    exact of_decide_eq_true (Registry.forall_rules hall hrule)
  · intro hreach
    let identity : GatewayIdentity := { userId := str "ada", orgId := str "acme", role := .member }
    let payload : Value := .object [(str "limit", .number (.finite (.ofInt 20))),
      (str "includeArchived", .bool false)]
    let m := metaFor patientRegistry patientCall identity (queryRule .member maxSafeInteger)
      patientAnswers
    obtain ⟨signature, hsign⟩ := @Statement.sign_isSome .transparent (.envelope .request m payload)
      (str "\x7b\"includeArchived\":false,\"limit\":20\x7d") (by decide) (str "secret")
    have hprepare := @prepare_of_passes .transparent (str "secret") patientRegistry
      (contractFor roughFormats) patientCall patientAnswers identity
      (queryRule .member maxSafeInteger) payload signature rfl rfl (by decide) rfl (by decide) rfl
      rfl rfl hsign
    let handlers : List (HandlerEntry Unit) :=
      [{ resource := str "project", operation := .read, execute := fun _ _ => () }]
    obtain ⟨rt, hboot, -⟩ := @defineService_ok Unit patientRegistry .projects handlers _ rfl rfl
    have hcall : HonestCall .transparent (str "secret") patientRegistry (contractFor roughFormats)
        patientCall patientAnswers { requestMeta := m, payload, signature } :=
      { prepared := hprepare
        requestId := by decide
        userId := by
          intro identity hidentity
          obtain rfl := Option.some.inj hidentity
          decide
        plan := by decide }
    have harrives : Arrives { requestMeta := m, payload, signature } .rpc 1 1 :=
      ⟨show (1 : ℤ) ≤ 1 by decide, by decide,
        fun _ => show (1 : ℤ) < 1 + maxSafeInteger by decide⟩
    obtain ⟨raw, p, b, hraw, hproject, hscreen, -⟩ := hreach Unit patientCall patientAnswers _
      (queryRule .member maxSafeInteger) .projects handlers rt 1 1 hcall trivial rfl rfl hboot
      harrives
    obtain ⟨r, hpassed⟩ := passed_of_screen hscreen
    obtain ⟨signature', hparse, -⟩ := hpassed.signed
    have hdeadline : IsSafe (1 + maxSafeInteger) := (valid_of_parseEnvelope hparse).deadlineAt
    exact absurd hdeadline (by decide)

end Guardrail
