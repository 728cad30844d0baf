import GuardrailPlatform.Signing

/-!
# The service half of the block

`defineService` boots a service from its handlers, `handle` takes one raw
message through the gates to a handler and its outcome to a signed reply, and
`defineConsumer` guards the consumers of events.

`handle` suspends where the handler runs, so it is modelled as two functions:
`screen`, the gates before the handler, and `settle`, what follows its outcome.
What a handler does is left open: `Effect` is whatever `execute` yields.
-/

namespace Guardrail

open Js

/-! ## Escalation -/

/-- The role a body names, read before any schema has parsed it. -/
def namedRole (input : Value) : Option JSString :=
  match input.member? (str "role") with
  | some (.string role) => some role
  | _ => none

/-- The role that must be refused, if the body names one its sender may not grant. -/
def refusedRole (input : Value) (actor : OrgRole) : Option JSString :=
  match namedRole input with
  | none => none
  | some requested =>
    if (assignableRoles actor).any (fun role => role.name == requested) then none
    else some requested

/-! ## Boot -/

/-- What a handler receives. -/
structure ServiceContext where
  requestId : JSString
  orgId : JSString
  userId : JSString
  role : OrgRole
  plan : PlanKey
  deadlineAt : ℤ
deriving DecidableEq

def contextOf (m : RequestMeta) : ServiceContext :=
  { requestId := m.requestId, orgId := m.orgId, userId := m.userId, role := m.role,
    plan := m.plan, deadlineAt := m.deadlineAt }

/-- A handler after registration. -/
structure HandlerEntry (Effect : Type*) where
  resource : ResourceKey
  operation : Operation
  execute : ServiceContext → Value → Effect

structure ServiceRoute where
  resource : ResourceKey
  operation : Operation
  subject : JSString
  transport : Transport
  event : Option JSString

def SubjectRoute.toServiceRoute (r : SubjectRoute) : ServiceRoute :=
  { resource := r.resource, operation := r.operation, subject := r.subject,
    transport := r.transport, event := r.event }

structure Binding (Effect : Type*) where
  route : ServiceRoute
  entry : HandlerEntry Effect

variable {Effect : Type*}

/-- Match a handler against the registry's routes, or refuse to boot. -/
def bindEntry (reg : Registry) (service : ServiceName) (entry : HandlerEntry Effect) :
    Except JSString (Binding Effect) :=
  match reg.findRoute entry.resource entry.operation with
  | none =>
    .error (str "Service '" ++ service.name ++ str "' handles '" ++ entry.resource ++ str "." ++
      entry.operation.name ++
      str "', which the registry does not declare. There is no subject for it.")
  | some route =>
    if route.owner ≠ service then
      .error (str "Service '" ++ service.name ++ str "' handles '" ++ entry.resource ++
        str "', which the registry says '" ++ route.owner.name ++ str "' owns.")
    else .ok { route := route.toServiceRoute, entry := entry }

/-- `handlers.map(...)`, up to the first throw. -/
def bindEntries (reg : Registry) (service : ServiceName) :
    List (HandlerEntry Effect) → Except JSString (List (Binding Effect))
  | [] => .ok []
  | entry :: entries =>
    match bindEntry reg service entry with
    | .error message => .error message
    | .ok binding =>
      match bindEntries reg service entries with
      | .error message => .error message
      | .ok bindings => .ok (binding :: bindings)

/-- Does the binding serve this operation? -/
def Binding.serves (b : Binding Effect) (resource : ResourceKey) (operation : Operation) : Bool :=
  b.route.resource == resource && b.route.operation == operation

/-- What the registry assigns to the service and no handler implements. -/
def unimplemented (reg : Registry) (service : ServiceName) (bindings : List (Binding Effect)) :
    List SubjectRoute :=
  reg.routes.filter fun route =>
    route.owner == service && !bindings.any (·.serves route.resource route.operation)

/-- `[...].join(", ")`. -/
def joinComma (texts : List JSString) : JSString := (str ", ").intercalate texts

/-- A booted service: its handlers answer for exactly what the registry gives it. -/
structure ServiceRuntime (reg : Registry) (Effect : Type*) where
  service : ServiceName
  bindings : List (Binding Effect)
  bound : ∀ b ∈ bindings, ∃ r ∈ reg.routes, r.owner = service ∧ b.route = r.toServiceRoute ∧
    b.entry.resource = r.resource ∧ b.entry.operation = r.operation
  complete : ∀ r ∈ reg.routes, r.owner = service →
    ∃ b ∈ bindings, b.serves r.resource r.operation = true

/-- A handler is bound to a route of the registry that its service owns. -/
theorem bindEntry_ok {reg : Registry} {service : ServiceName} {entry : HandlerEntry Effect}
    {b : Binding Effect} (h : bindEntry reg service entry = .ok b) :
    ∃ r ∈ reg.routes, r.owner = service ∧ b.route = r.toServiceRoute ∧
      b.entry.resource = r.resource ∧ b.entry.operation = r.operation := by
  unfold bindEntry at h
  split at h
  · cases h
  · rename_i route hroute
    split at h
    · cases h
    · rename_i howner
      obtain ⟨hmem, hresource, hoperation⟩ := Registry.findRoute_eq_some.mp hroute
      obtain rfl := Except.ok.inj h
      exact ⟨route, hmem, not_not.mp howner, rfl, hresource.symm, hoperation.symm⟩

/-- All of a service's handlers are bound to routes that it owns. -/
theorem bindEntries_ok {reg : Registry} {service : ServiceName}
    {entries : List (HandlerEntry Effect)} {bindings : List (Binding Effect)}
    (h : bindEntries reg service entries = .ok bindings) :
    ∀ b ∈ bindings, ∃ r ∈ reg.routes, r.owner = service ∧ b.route = r.toServiceRoute ∧
      b.entry.resource = r.resource ∧ b.entry.operation = r.operation := by
  induction entries generalizing bindings with
  | nil =>
      obtain rfl := Except.ok.inj h
      simp
  | cons entry entries ih =>
      rw [bindEntries] at h
      split at h
      · cases h
      · rename_i b hb
        split at h
        · cases h
        · rename_i bs hbs
          obtain rfl := Except.ok.inj h
          intro b' hb'
          rcases List.mem_cons.mp hb' with rfl | hb'
          · exact bindEntry_ok hb
          · exact ih hbs b' hb'

/-- A service that boots has a handler for every route it owns. -/
theorem complete_of_unimplemented {reg : Registry} {service : ServiceName}
    {bindings : List (Binding Effect)} (h : unimplemented reg service bindings = []) :
    ∀ r ∈ reg.routes, r.owner = service →
      ∃ b ∈ bindings, b.serves r.resource r.operation = true := by
  intro r hr howner
  have hnone := List.filter_eq_nil_iff.mp h r hr
  simpa [howner] using hnone

/-- Boot a service, or refuse with the message that says why. -/
def defineService (reg : Registry) (service : ServiceName) (handlers : List (HandlerEntry Effect)) :
    Except JSString (ServiceRuntime reg Effect) :=
  match h : bindEntries reg service handlers with
  | .error message => .error message
  | .ok bindings =>
    if hcomplete : unimplemented reg service bindings = [] then
      .ok { service, bindings, bound := bindEntries_ok h,
            complete := complete_of_unimplemented hcomplete }
    else
      .error (str "Service '" ++ service.name ++ str "' does not implement " ++
        joinComma ((unimplemented reg service bindings).map
          (fun route => route.resource ++ str "." ++ route.operation.name)) ++
        str ", which the registry assigns to it. The gateway will publish to " ++
        joinComma ((unimplemented reg service bindings).map (·.subject)) ++
        str " and nothing will answer.")

/-! ## Refusals -/

variable (crypto : Crypto) (secret : JSString)

/-- Everything a reply is bound to except its outcome. -/
structure ReplyRoute where
  requestId : JSString
  resource : JSString
  operation : JSString

def RequestMeta.replyRoute (m : RequestMeta) : ReplyRoute :=
  { requestId := m.requestId, resource := m.resource, operation := m.operation.name }

def ReplyRoute.binding (route : ReplyRoute) (ok : Bool) : ReplyBinding :=
  { requestId := route.requestId, resource := route.resource, operation := route.operation, ok }

/-- The refusals that happen before any meta can be trusted. -/
def unrouted : ReplyRoute :=
  { requestId := str "unknown", resource := str "unknown", operation := str "unknown" }

/-- A signed refusal.  `none` is a throw: the error's data has no canonical form. -/
def reject (route : ReplyRoute) (error : WireError) : Option ReplyEnvelope :=
  (signReply crypto (route.binding false) error.toValue secret).map fun signature =>
    .refused route.requestId signature error

/-- An error without data. -/
def wireError (code : ErrorCode) (message : JSString) : WireError :=
  { code := code.name, message, data := none }

/-- The pre-signed refusal for bytes that never became a message. -/
def unreadable : Option ReplyEnvelope :=
  reject crypto secret unrouted
    (wireError .untrustedEnvelope (str "The service could not read this message."))

/-! ## The gates -/

/-- Gates 5 and 5b: what the envelope claims about its caller, re-checked. -/
def reassertAuthority (m : RequestMeta) (payload : Value) : Option WireError :=
  if ¬ can m.permissions m.resource m.operation then
    some (wireError .permissionDenied (str "Envelope does not carry this permission."))
  else
    match refusedRole payload m.role with
    | some refused =>
      some (wireError .permissionDenied (str "Your " ++ m.role.name ++
        str " role cannot grant the " ++ refused ++ str " role."))
    | none => none

/-- The gates' decision on one message. -/
inductive Admission (Effect : Type*)
  | refused (route : ReplyRoute) (error : WireError)
  | admitted (binding : Binding Effect) (m : RequestMeta) (payload : Value)

/-- `handle`, up to the handler's `execute`. -/
def screen {reg : Registry} (rt : ServiceRuntime reg Effect) (raw : Json) (subject : JSString)
    (now : ℤ) : Admission Effect :=
  match parseEnvelope reg raw with
  | none => .refused unrouted (wireError .untrustedEnvelope (str "Malformed envelope."))
  | some { requestMeta := m, payload, signature } =>
    -- 1. signature, over the meta and the body together
    if ¬ verifyRequest crypto m payload signature secret then
      .refused m.replyRoute
        (wireError .untrustedEnvelope (str "Envelope signature is not valid."))
    else
      -- 2. route
      match rt.bindings.find? (·.serves m.resource m.operation) with
      | none =>
        .refused m.replyRoute (wireError .notFound
          (str "No handler for " ++ m.resource ++ str "." ++ m.operation.name ++ str "."))
      | some b =>
        -- 3. subject
        if subject ≠ b.route.subject then
          .refused m.replyRoute (wireError .untrustedEnvelope
            (str "Envelope for " ++ b.route.subject ++ str " arrived on " ++ subject ++ str "."))
        else
          -- 4. freshness
          match checkFreshness reg m b.route.transport now with
          | .stale code message => .refused m.replyRoute (wireError code message)
          | .fresh =>
            match reassertAuthority m payload with
            | some error => .refused m.replyRoute error
            | none => .admitted b m payload

/-! ## The outcome -/

/-- How a handler's `execute` settles. -/
inductive Execution
  | returned (data : Value)
  | refused (error : ServiceError)
  | crashed

def ServiceError.toWire (e : ServiceError) : WireError :=
  { code := e.code.name, message := e.message, data := e.data }

/-- What the caller is told when anything but a coded error is thrown. -/
def internalError : WireError :=
  wireError .internal (str "The service failed to handle this request.")

/-- The event of a success: published where the registry audits the operation. -/
def eventEnvelope (m : RequestMeta) : Option Envelope :=
  (signEvent crypto m successPayload secret).map fun signature =>
    { requestMeta := m, payload := successPayload, signature }

/-- The reply to a success, or the refusal when its data cannot be signed. -/
def succeed (m : RequestMeta) (data : Value) : Option ReplyEnvelope :=
  match signReply crypto (m.replyRoute.binding true) data secret with
  | some signature => some (.ok m.requestId signature data)
  | none => reject crypto secret m.replyRoute internalError

/-- What `handle` did after the handler settled: the event it tried to publish,
and its reply, `none` where it throws. -/
structure Settled where
  event : Option (JSString × Envelope)
  reply : Option ReplyEnvelope

/-- `handle`, from the handler's outcome on.  `published` says whether
`publishEvent` returned or threw. -/
def settle (route : ServiceRoute) (m : RequestMeta) (execution : Execution) (published : Bool) :
    Settled :=
  match execution with
  | .returned data =>
    match route.event with
    | none => { event := none, reply := succeed crypto secret m data }
    | some subject =>
      match eventEnvelope crypto secret m with
      | none => { event := none, reply := reject crypto secret m.replyRoute internalError }
      | some event =>
        { event := some (subject, event),
          reply := if published then succeed crypto secret m data
            else reject crypto secret m.replyRoute internalError }
  | .refused error => { event := none, reply := reject crypto secret m.replyRoute error.toWire }
  | .crashed => { event := none, reply := reject crypto secret m.replyRoute internalError }

/-- `handle`, with `execute` and `publishEvent` answered by the environment. -/
def handle {reg : Registry} (rt : ServiceRuntime reg Effect) (raw : Json) (subject : JSString)
    (now : ℤ) (execute : HandlerEntry Effect → ServiceContext → Value → Execution)
    (published : Bool) : Settled :=
  match screen crypto secret rt raw subject now with
  | .refused route error => { event := none, reply := reject crypto secret route error }
  | .admitted b m payload =>
    settle crypto secret b.route m (execute b.entry (contextOf m) payload) published

/-! ## Consumers -/

/-- `defineConsumer`: the meta its callback runs on, if the message passes. -/
def consume (reg : Registry) (raw : Json) (subject : JSString) : Option RequestMeta :=
  match parseEnvelope reg raw with
  | none => none
  | some { requestMeta := m, payload, signature } =>
    if ¬ verifyEvent crypto m payload signature secret then none
    else if ¬ isEventPayload payload then none
    else
      match reg.findRoute m.resource m.operation with
      | none => none
      | some route => if route.event ≠ some subject then none else some m

/-! ## What passing the gates means -/

variable {crypto secret} {reg : Registry}

/-- Authority is asserted again exactly where the permission is among the signed
ones and no role outranks the caller's. -/
theorem reassertAuthority_eq_none {m : RequestMeta} {payload : Value} :
    reassertAuthority m payload = none ↔
      toPermission m.resource m.operation ∈ m.permissions ∧ refusedRole payload m.role = none := by
  rw [reassertAuthority, ← can_iff]
  split <;> rename_i hcan
  · simp only [reduceCtorEq, false_iff, not_and]
    exact fun h => absurd h hcan
  · cases refusedRole payload m.role <;> simp_all

/-- The binding that serves an operation is the route of that operation. -/
theorem route_of_serves {rt : ServiceRuntime reg Effect} {b : Binding Effect} {r : SubjectRoute}
    (hb : b ∈ rt.bindings) (hr : r ∈ reg.routes) (hserves : b.serves r.resource r.operation = true) :
    r.owner = rt.service ∧ b.route = r.toServiceRoute ∧ b.entry.resource = r.resource ∧
      b.entry.operation = r.operation := by
  obtain ⟨r', hr', howner, hroute, hresource, hoperation⟩ := rt.bound b hb
  rw [Binding.serves, Bool.and_eq_true, beq_iff_eq, beq_iff_eq, hroute] at hserves
  obtain rfl : r' = r := Registry.routes_unique hr' hr hserves.1 hserves.2
  exact ⟨howner, hroute, hresource, hoperation⟩

/-- What a message that reaches a handler has passed. -/
structure Passed (crypto : Crypto) (secret : JSString) (rt : ServiceRuntime reg Effect)
    (raw : Json) (subject : JSString) (now : ℤ) (b : Binding Effect) (m : RequestMeta)
    (payload : Value) (r : SubjectRoute) : Prop where
  signed : ∃ signature, parseEnvelope reg raw = some { requestMeta := m, payload, signature } ∧
    verifyRequest crypto m payload signature secret = true
  declared : reg.findRoute m.resource m.operation = some r
  owned : r.owner = rt.service
  bound : b ∈ rt.bindings ∧ b.route = r.toServiceRoute
  entry : b.entry.resource = m.resource ∧ b.entry.operation = m.operation
  subject : subject = r.subject
  fresh : checkFreshness reg m r.transport now = .fresh
  permitted : toPermission m.resource m.operation ∈ m.permissions
  unescalated : refusedRole payload m.role = none

/-- **The gates.** A message that reaches a handler has passed every check of `handle`
before it. -/
theorem passed_of_screen {rt : ServiceRuntime reg Effect} {raw : Json} {subject : JSString} {now : ℤ}
    {b : Binding Effect} {m : RequestMeta} {payload : Value}
    (h : screen crypto secret rt raw subject now = .admitted b m payload) :
    ∃ r, Passed crypto secret rt raw subject now b m payload r := by
  unfold screen at h
  split at h
  · cases h
  · rename_i m' payload' signature hparse
    split at h
    · cases h
    · rename_i hverify
      split at h
      · cases h
      · rename_i b' hfind
        split at h
        · cases h
        · rename_i hsubject
          split at h
          · cases h
          · rename_i hfresh
            split at h
            · cases h
            · rename_i hauthority
              obtain ⟨rfl, rfl, rfl⟩ := Admission.admitted.inj h
              have hmem := List.mem_of_find?_eq_some hfind
              have hserves := List.find?_some hfind
              obtain ⟨r, hr, howner, hroute, hresource, hoperation⟩ := rt.bound b' hmem
              have hkey := hserves
              rw [Binding.serves, Bool.and_eq_true, beq_iff_eq, beq_iff_eq, hroute] at hkey
              have hkeyr : r.resource = m'.resource ∧ r.operation = m'.operation := hkey
              obtain ⟨hpermitted, hunescalated⟩ := reassertAuthority_eq_none.mp hauthority
              rw [hroute] at hsubject hfresh
              refine ⟨r, ⟨signature, hparse, not_not.mp hverify⟩, ?_, howner, ⟨hmem, hroute⟩, ?_,
                not_not.mp hsubject, hfresh, hpermitted, hunescalated⟩
              · exact Registry.findRoute_eq_some.mpr ⟨hr, hkeyr⟩
              · exact ⟨hresource.trans hkeyr.1, hoperation.trans hkeyr.2⟩

/-- A message is admitted with the meta and the payload it carries. -/
theorem carried_of_screen {rt : ServiceRuntime reg Effect} {e : Envelope} {p : Json}
    {subject : JSString} {now : ℤ} {b : Binding Effect} {m : RequestMeta} {payload : Value}
    (h : screen crypto secret rt (e.wire p) subject now = .admitted b m payload) :
    m = e.requestMeta ∧ payload = p.toValue := by
  obtain ⟨r, hpassed⟩ := passed_of_screen h
  obtain ⟨signature, hparse, -⟩ := hpassed.signed
  exact ⟨requestMeta_of_parse_wire hparse, payload_of_parse_wire hparse⟩

/-- A message that passes every check of the service, one after the other, reaches the
handler bound to it. -/
theorem screen_of_passes {rt : ServiceRuntime reg Effect} {raw : Json} {subject : JSString} {now : ℤ}
    {m : RequestMeta} {payload : Value} {signature : JSString} {r : SubjectRoute}
    (hparse : parseEnvelope reg raw = some { requestMeta := m, payload, signature })
    (hverify : verifyRequest crypto m payload signature secret = true)
    (hroute : reg.findRoute m.resource m.operation = some r) (howner : r.owner = rt.service)
    (hsubject : subject = r.subject) (hfresh : checkFreshness reg m r.transport now = .fresh)
    (hpermitted : toPermission m.resource m.operation ∈ m.permissions)
    (hunescalated : refusedRole payload m.role = none) :
    ∃ b, screen crypto secret rt raw subject now = .admitted b m payload ∧
      b.entry.resource = m.resource ∧ b.entry.operation = m.operation := by
  obtain ⟨hr, hresource, hoperation⟩ := Registry.findRoute_eq_some.mp hroute
  have hsome : (rt.bindings.find? (·.serves m.resource m.operation)).isSome := by
    obtain ⟨b, hb, hserves⟩ := rt.complete r hr howner
    rw [List.find?_isSome]
    exact ⟨b, hb, by rwa [hresource, hoperation] at hserves⟩
  obtain ⟨b, hb⟩ := Option.isSome_iff_exists.mp hsome
  have hfound := List.find?_some hb
  have hserves : b.serves r.resource r.operation = true := by rwa [hresource, hoperation]
  obtain ⟨-, hbroute, hbresource, hboperation⟩ :=
    route_of_serves (List.mem_of_find?_eq_some hb) hr hserves
  have hsubject' : subject = b.route.subject := by rw [hbroute, hsubject]; rfl
  have hfresh' : checkFreshness reg m b.route.transport now = .fresh := by rw [hbroute]; exact hfresh
  have hauthority : reassertAuthority m payload = none :=
    reassertAuthority_eq_none.mpr ⟨hpermitted, hunescalated⟩
  refine ⟨b, ?_, hbresource.trans hresource, hboperation.trans hoperation⟩
  simp only [screen, hparse, hverify, not_true_eq_false, if_false, hb, ← hsubject', ne_eq,
    not_true_eq_false, hfresh', hauthority]

theorem consume_eq_some {raw : Json} {subject : JSString} {m : RequestMeta} :
    consume crypto secret reg raw subject = some m ↔ ∃ payload signature r,
      parseEnvelope reg raw = some { requestMeta := m, payload, signature } ∧
      verifyEvent crypto m payload signature secret = true ∧ isEventPayload payload = true ∧
      reg.findRoute m.resource m.operation = some r ∧ r.event = some subject := by
  constructor
  · intro h
    unfold consume at h
    split at h
    · cases h
    · rename_i m' payload signature hparse
      split at h
      · cases h
      · rename_i hverify
        split at h
        · cases h
        · rename_i hbody
          split at h
          · cases h
          · rename_i r hroute
            split at h
            · cases h
            · rename_i hevent
              obtain rfl := Option.some.inj h
              exact ⟨payload, signature, r, hparse, not_not.mp hverify, not_not.mp hbody, hroute,
                not_not.mp hevent⟩
  · intro ⟨payload, signature, r, hparse, hverify, hbody, hroute, hevent⟩
    simp only [consume, hparse, hverify, hbody, hroute, hevent, not_true_eq_false, if_false, ne_eq]

/-! ## What a reply says -/

/-- What a reply signs. -/
def ReplyEnvelope.statement (route : ReplyRoute) (reply : ReplyEnvelope) : Statement :=
  .reply (route.binding reply.isOk) reply.answered

/-- A refusal is bound to the route of its request, and carries the error it was made for.
-/
theorem reject_eq_some {route : ReplyRoute} {error : WireError} {reply : ReplyEnvelope} :
    reject crypto secret route error = some reply ↔ ∃ signature,
      reply = .refused route.requestId signature error ∧
      (reply.statement route).sign crypto secret = some signature := by
  constructor
  · intro h
    obtain ⟨signature, hsign, rfl⟩ := Option.map_eq_some_iff.mp h
    exact ⟨signature, rfl, hsign⟩
  · intro ⟨signature, hreply, hsign⟩
    subst hreply
    exact Option.map_eq_some_iff.mpr ⟨signature, hsign, rfl⟩

/-- A refusal can be signed wherever its error has a canonical text. -/
theorem reject_isSome {route : ReplyRoute} {error : WireError} {text : JSString}
    (h : canonicalJson error.toValue = some text) :
    ∃ reply, reject crypto secret route error = some reply := by
  obtain ⟨signature, hsign⟩ := @Statement.sign_isSome crypto
    (.reply (route.binding false) error.toValue) text h secret
  exact ⟨_, reject_eq_some.mpr ⟨signature, rfl, hsign⟩⟩

/-- Every reply to a message with a readable meta is bound to that meta. -/
structure Answers (crypto : Crypto) (secret : JSString) (route : ReplyRoute)
    (reply : ReplyEnvelope) : Prop where
  requestId : reply.requestId = route.requestId
  signed : (reply.statement route).sign crypto secret = some reply.signature

/-- A refusal answers the very request that was refused, and carries a MAC that verifies. -/
theorem answers_of_reject {route : ReplyRoute} {error : WireError} {reply : ReplyEnvelope}
    (h : reject crypto secret route error = some reply) : Answers crypto secret route reply := by
  obtain ⟨signature, rfl, hsign⟩ := reject_eq_some.mp h
  exact ⟨rfl, hsign⟩

/-- The reply to a success answers the request, or refuses where its data cannot
be signed. -/
theorem answers_of_succeed {m : RequestMeta} {data : Value} {reply : ReplyEnvelope}
    (h : succeed crypto secret m data = some reply) : Answers crypto secret m.replyRoute reply := by
  unfold succeed at h
  split at h
  · rename_i signature hsign
    obtain rfl := Option.some.inj h
    exact ⟨rfl, hsign⟩
  · exact answers_of_reject h

/-- However a handler settles, the reply answers the request it was started for. -/
theorem answers_of_settle {route : ServiceRoute} {m : RequestMeta} {execution : Execution}
    {published : Bool} {reply : ReplyEnvelope}
    (h : (settle crypto secret route m execution published).reply = some reply) :
    Answers crypto secret m.replyRoute reply := by
  have hinternal : reject crypto secret m.replyRoute internalError = some reply →
      Answers crypto secret m.replyRoute reply := answers_of_reject
  unfold settle at h
  split at h
  · split at h
    · exact answers_of_succeed h
    · split at h
      · exact hinternal h
      · cases published with
        | true => exact answers_of_succeed h
        | false => exact hinternal h
  · rename_i error
    exact @answers_of_reject crypto secret _ error.toWire _ h
  · exact hinternal h

/-- The event of a success, on the subject of its route, is all that `settle` publishes. -/
theorem settle_event {route : ServiceRoute} {m : RequestMeta} {execution : Execution}
    {published : Bool} {subject : JSString} {e : Envelope}
    (h : (settle crypto secret route m execution published).event = some (subject, e)) :
    route.event = some subject ∧ eventEnvelope crypto secret m = some e ∧
      ∃ data, execution = .returned data := by
  unfold settle at h
  split at h
  · rename_i data
    split at h
    · cases h
    · rename_i subject' hsubject
      split at h
      · cases h
      · rename_i e' he
        obtain ⟨rfl, rfl⟩ := Prod.mk.inj (Option.some.inj h)
        exact ⟨hsubject, he, data, rfl⟩
  · cases h
  · cases h

/-- A reply of success answers with the data that the handler has returned. -/
theorem returned_of_settle {route : ServiceRoute} {m : RequestMeta} {execution : Execution}
    {published : Bool} {reply : ReplyEnvelope}
    (h : (settle crypto secret route m execution published).reply = some reply)
    (hok : reply.isOk = true) : ∃ data, execution = .returned data ∧ reply.answered = data := by
  have hrefusal : ∀ error, reject crypto secret m.replyRoute error ≠ some reply := by
    intro error hreply
    obtain ⟨signature, rfl, -⟩ := reject_eq_some.mp hreply
    cases hok
  have hsuccess : ∀ data, succeed crypto secret m data = some reply → reply.answered = data := by
    intro data hreply
    unfold succeed at hreply
    split at hreply
    · obtain rfl := Option.some.inj hreply
      rfl
    · exact (hrefusal _ hreply).elim
  unfold settle at h
  split at h
  · rename_i data
    refine ⟨data, rfl, hsuccess data ?_⟩
    split at h
    · exact h
    · split at h
      · exact (hrefusal internalError h).elim
      · cases published with
        | true => exact h
        | false => exact (hrefusal internalError h).elim
  · rename_i error
    exact (hrefusal error.toWire h).elim
  · exact (hrefusal internalError h).elim

/-- The event of a success has the request's own meta and is signed as an event. -/
theorem eventEnvelope_eq_some {m : RequestMeta} {e : Envelope} :
    eventEnvelope crypto secret m = some e ↔ e.requestMeta = m ∧ e.payload = successPayload ∧
      (Statement.envelope .event m successPayload).sign crypto secret = some e.signature := by
  constructor
  · intro h
    obtain ⟨signature, hsign, rfl⟩ := Option.map_eq_some_iff.mp h
    exact ⟨rfl, rfl, hsign⟩
  · intro ⟨hm, hpayload, hsign⟩
    obtain ⟨m', payload, signature⟩ := e
    subst hm hpayload
    exact Option.map_eq_some_iff.mpr ⟨signature, hsign, rfl⟩

/-- The event body can always be signed, since it is a constant. -/
theorem eventEnvelope_isSome (m : RequestMeta) : ∃ e, eventEnvelope crypto secret m = some e := by
  obtain ⟨signature, hsign⟩ := @Statement.sign_isSome crypto (.envelope .event m successPayload) _
    (canonicalJson_toValue (.object [(str "outcome", .string (str "success"))])) secret
  exact ⟨⟨m, successPayload, signature⟩, eventEnvelope_eq_some.mpr ⟨rfl, rfl, hsign⟩⟩

/-- A success of an audited operation always has its event published on the route's subject.
-/
theorem settle_returned {route : ServiceRoute} {subject : JSString} (m : RequestMeta) (data : Value)
    (published : Bool) (hevent : route.event = some subject) :
    ∃ e, eventEnvelope crypto secret m = some e ∧
      settle crypto secret route m (.returned data) published =
        { event := some (subject, e),
          reply := if published then succeed crypto secret m data
            else reject crypto secret m.replyRoute internalError } := by
  obtain ⟨e, he⟩ := @eventEnvelope_isSome crypto secret m
  refine ⟨e, he, ?_⟩
  simp only [settle, hevent, he]

/-- A service boots when its handlers bind and leave none of its operations unimplemented.
-/
theorem defineService_ok {service : ServiceName} {handlers : List (HandlerEntry Effect)}
    {bindings : List (Binding Effect)} (hbind : bindEntries reg service handlers = .ok bindings)
    (hcomplete : unimplemented reg service bindings = []) :
    ∃ rt, defineService reg service handlers = .ok rt ∧ rt.bindings = bindings := by
  unfold defineService
  split
  · rename_i message hmessage
    rw [hbind] at hmessage
    cases hmessage
  · rename_i bindings' hbindings
    obtain rfl := Except.ok.inj (hbind.symm.trans hbindings)
    rw [dif_pos hcomplete]
    exact ⟨_, rfl, rfl⟩

/-- A runtime serves for the very service that it was defined as. -/
theorem defineService_service {service : ServiceName} {handlers : List (HandlerEntry Effect)}
    {rt : ServiceRuntime reg Effect} (h : defineService reg service handlers = .ok rt) :
    rt.service = service := by
  unfold defineService at h
  split at h
  · cases h
  · split at h
    · obtain rfl := Except.ok.inj h
      rfl
    · cases h

/-- What a binding runs is one of the handlers that were to be bound. -/
theorem entry_of_bindEntries {service : ServiceName} {handlers : List (HandlerEntry Effect)}
    {bindings : List (Binding Effect)} (h : bindEntries reg service handlers = .ok bindings) :
    ∀ b ∈ bindings, b.entry ∈ handlers := by
  induction handlers generalizing bindings with
  | nil =>
      obtain rfl := Except.ok.inj h
      simp
  | cons entry entries ih =>
      rw [bindEntries] at h
      split at h
      · cases h
      · rename_i first hfirst
        split at h
        · cases h
        · rename_i rest hrest
          obtain rfl := Except.ok.inj h
          intro b hb
          rcases List.mem_cons.mp hb with rfl | hb
          · unfold bindEntry at hfirst
            split at hfirst
            · cases hfirst
            · split at hfirst
              · cases hfirst
              · obtain rfl := Except.ok.inj hfirst
                exact List.mem_cons_self
          · exact List.mem_cons_of_mem _ (ih hrest b hb)

/-- A runtime binds the handlers that it was given, and no others. -/
theorem entry_of_defineService {service : ServiceName} {handlers : List (HandlerEntry Effect)}
    {rt : ServiceRuntime reg Effect} (h : defineService reg service handlers = .ok rt) :
    ∀ b ∈ rt.bindings, b.entry ∈ handlers := by
  unfold defineService at h
  split at h
  · cases h
  · rename_i bindings hbind
    split at h
    · obtain rfl := Except.ok.inj h
      exact entry_of_bindEntries hbind
    · cases h

/-- A handler for one route, bound to it. -/
def bindingOf (execute : SubjectRoute → ServiceContext → Value → Effect) (r : SubjectRoute) :
    Binding Effect :=
  { route := r.toServiceRoute,
    entry := { resource := r.resource, operation := r.operation, execute := execute r } }

/-- Handlers that are made from a service's own routes are all bound. -/
theorem bindEntries_routes {service : ServiceName} {routes : List SubjectRoute}
    (execute : SubjectRoute → ServiceContext → Value → Effect)
    (hroutes : ∀ r ∈ routes, r ∈ reg.routes ∧ r.owner = service) :
    bindEntries reg service (routes.map fun r => (bindingOf execute r).entry) =
      .ok (routes.map (bindingOf execute)) := by
  induction routes with
  | nil => rfl
  | cons r routes ih =>
      obtain ⟨hr, howner⟩ := hroutes r List.mem_cons_self
      have hfound : reg.findRoute r.resource r.operation = some r :=
        Registry.findRoute_eq_some.mpr ⟨hr, rfl, rfl⟩
      have hbind : bindEntry reg service (bindingOf execute r).entry = .ok (bindingOf execute r) := by
        simp only [bindEntry, bindingOf, hfound, howner, ne_eq, not_true_eq_false, if_false]
      rw [List.map_cons, bindEntries, hbind, ih fun r hr => hroutes r (List.mem_cons_of_mem _ hr),
        List.map_cons]

/-- Handlers that are made from a service's own routes leave none unimplemented. -/
theorem unimplemented_routes {service : ServiceName}
    (execute : SubjectRoute → ServiceContext → Value → Effect) :
    unimplemented reg service
      ((reg.routes.filter (·.owner == service)).map (bindingOf execute)) = [] := by
  refine List.filter_eq_nil_iff.mpr ?_
  intro r hr hmissing
  rw [Bool.and_eq_true, Bool.not_eq_true', List.any_eq_false] at hmissing
  have hserves := hmissing.2 (bindingOf execute r)
    (List.mem_map_of_mem (List.mem_filter.mpr ⟨hr, hmissing.1⟩))
  exact hserves (by simp [Binding.serves, bindingOf, SubjectRoute.toServiceRoute])

/-- A service with one handler for each of its routes. -/
def runtimeOf (execute : SubjectRoute → ServiceContext → Value → Effect) (service : ServiceName) :
    ServiceRuntime reg Effect where
  service := service
  bindings := (reg.routes.filter (·.owner == service)).map (bindingOf execute)
  bound := by
    intro b hb
    obtain ⟨r, hr, rfl⟩ := List.mem_map.mp hb
    obtain ⟨hmem, howner⟩ := List.mem_filter.mp hr
    exact ⟨r, hmem, beq_iff_eq.mp howner, rfl, rfl, rfl⟩
  complete := complete_of_unimplemented (unimplemented_routes execute)

/-- **Every service can boot**: with one handler for each of its routes. -/
theorem defineService_runtimeOf (execute : SubjectRoute → ServiceContext → Value → Effect)
    (service : ServiceName) :
    ∃ handlers, defineService reg service handlers = .ok (runtimeOf execute service) := by
  have hroutes : ∀ r ∈ reg.routes.filter (·.owner == service), r ∈ reg.routes ∧ r.owner = service := by
    intro r hr
    exact ⟨(List.mem_filter.mp hr).1, beq_iff_eq.mp (List.mem_filter.mp hr).2⟩
  obtain ⟨rt, hboot, hbindings⟩ :=
    defineService_ok (bindEntries_routes execute hroutes) (unimplemented_routes execute)
  have hservice := defineService_service hboot
  obtain ⟨name, bindings, bound, complete⟩ := rt
  obtain rfl : service = name := hservice.symm
  obtain rfl : bindings = _ := hbindings
  exact ⟨_, hboot⟩

theorem reassertAuthority_data {m : RequestMeta} {payload : Value} {error : WireError}
    (h : reassertAuthority m payload = some error) : error.data = none := by
  unfold reassertAuthority at h
  split at h
  · obtain rfl := Option.some.inj h
    rfl
  · split at h
    · obtain rfl := Option.some.inj h
      rfl
    · cases h

/-- A gate that refuses a readable envelope answers that envelope, without data. -/
theorem refused_of_screen {rt : ServiceRuntime reg Effect} {raw : Json} {subject : JSString}
    {now : ℤ} {e : Envelope} {route : ReplyRoute} {error : WireError}
    (hparse : parseEnvelope reg raw = some e)
    (h : screen crypto secret rt raw subject now = .refused route error) :
    route = e.requestMeta.replyRoute ∧ error.data = none := by
  unfold screen at h
  rw [hparse] at h
  dsimp only at h
  split at h
  · obtain ⟨rfl, rfl⟩ := Admission.refused.inj h
    exact ⟨rfl, rfl⟩
  · split at h
    · obtain ⟨rfl, rfl⟩ := Admission.refused.inj h
      exact ⟨rfl, rfl⟩
    · split at h
      · obtain ⟨rfl, rfl⟩ := Admission.refused.inj h
        exact ⟨rfl, rfl⟩
      · split at h
        · obtain ⟨rfl, rfl⟩ := Admission.refused.inj h
          exact ⟨rfl, rfl⟩
        · split at h
          · rename_i error' hauthority
            obtain ⟨rfl, rfl⟩ := Admission.refused.inj h
            exact ⟨rfl, reassertAuthority_data hauthority⟩
          · cases h

/-- An error that carries no data has a canonical text, whatever its message is. -/
theorem canonicalJson_of_data {error : WireError} (h : error.data = none) :
    ∃ text, canonicalJson error.toValue = some text := by
  obtain ⟨code, message, data⟩ := error
  obtain rfl : data = none := h
  exact ⟨_, canonicalJson_toValue (.object [(str "code", .string code),
    (str "message", .string message)])⟩

/-- Data that has a canonical text is signed and answered as it is. -/
theorem succeed_of_canonical (m : RequestMeta) {data : Value} {text : JSString}
    (h : canonicalJson data = some text) :
    ∃ signature, succeed crypto secret m data = some (.ok m.requestId signature data) := by
  obtain ⟨signature, hsign⟩ := @Statement.sign_isSome crypto
    (.reply (m.replyRoute.binding true) data) text h secret
  exact ⟨signature, by rw [succeed, signReply_eq, hsign]⟩

/-- A success is always answered, if only by a refusal where its data cannot be signed. -/
theorem succeed_isSome (m : RequestMeta) (data : Value) :
    ∃ reply, succeed crypto secret m data = some reply := by
  obtain ⟨text, htext⟩ := canonicalJson_of_data (rfl : internalError.data = none)
  unfold succeed
  split
  · exact ⟨_, rfl⟩
  · exact reject_isSome htext

/-- Only an error whose data has no canonical text leaves a request without an answer. -/
theorem settle_isSome (route : ServiceRoute) (m : RequestMeta) {execution : Execution}
    (published : Bool)
    (hcanonical : ∀ error, execution = .refused error →
      ∃ text, canonicalJson error.toWire.toValue = some text) :
    ∃ reply, (settle crypto secret route m execution published).reply = some reply := by
  obtain ⟨text, htext⟩ := canonicalJson_of_data (rfl : internalError.data = none)
  have hinternal : ∃ reply, reject crypto secret m.replyRoute internalError = some reply :=
    reject_isSome htext
  unfold settle
  split
  · rename_i data
    split
    · exact succeed_isSome m data
    · split
      · exact hinternal
      · cases published with
        | true => exact succeed_isSome m data
        | false => exact hinternal
  · rename_i error
    obtain ⟨text, htext⟩ := hcanonical error rfl
    exact reject_isSome htext
  · exact hinternal

/-- **Every readable envelope is answered.**  The reply is bound to the
envelope's own meta, whichever way `handle` goes. -/
theorem handle_answers {rt : ServiceRuntime reg Effect} {raw : Json} {subject : JSString}
    {now : ℤ} {e : Envelope} {execute : HandlerEntry Effect → ServiceContext → Value → Execution}
    {published : Bool} (hparse : parseEnvelope reg raw = some e)
    (hcanonical : ∀ entry ctx payload error, execute entry ctx payload = .refused error →
      ∃ text, canonicalJson error.toWire.toValue = some text) :
    ∃ reply, (handle crypto secret rt raw subject now execute published).reply = some reply ∧
      Answers crypto secret e.requestMeta.replyRoute reply := by
  unfold handle
  cases hscreen : screen crypto secret rt raw subject now with
  | refused route error =>
      obtain ⟨rfl, hdata⟩ := refused_of_screen hparse hscreen
      obtain ⟨text, htext⟩ := canonicalJson_of_data hdata
      obtain ⟨reply, hreply⟩ := @reject_isSome crypto secret e.requestMeta.replyRoute error text htext
      exact ⟨reply, hreply, answers_of_reject hreply⟩
  | admitted b m payload =>
      obtain ⟨r, hpassed⟩ := passed_of_screen hscreen
      obtain ⟨signature, hsigned, -⟩ := hpassed.signed
      obtain rfl := Option.some.inj (hparse.symm.trans hsigned)
      obtain ⟨reply, hreply⟩ := @settle_isSome crypto secret b.route m
        (execute b.entry (contextOf m) payload) published (hcanonical _ _ _)
      exact ⟨reply, hreply, answers_of_settle hreply⟩

end Guardrail
