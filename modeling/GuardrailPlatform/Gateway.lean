import GuardrailPlatform.Service

/-!
# The gateway half of the block

`dispatch` suspends twice, so it is modelled in parts: `prepare` is steps 1 to
7, everything a call must survive before its envelope is signed; `accept` is
the answer to a command that was published; `conclude` is steps 8 to 10 of an
rpc, from the bytes that came back to what the caller gets.

The session, the rate limiter, billing and the clock are what `DepsAnswers`
says they answered.
-/

namespace Guardrail

open Js

/-! ## Contracts -/

/-- The schemas of an operation.  An input schema may strip a role; one it
keeps is the string the input named. -/
structure Contract where
  input : Value → Option Value
  output : Value → Option Value
  keepsRole : ∀ v w, input v = some w → ∀ role, w.member? (str "role") = some role →
    ∃ name, role = .string name ∧ namedRole v = some name

abbrev ContractMap := ResourceKey → Operation → Contract

/-! ## Failures -/

structure GatewayIdentity where
  userId : JSString
  orgId : JSString
  role : OrgRole

structure RateVerdict where
  ok : Bool
  retryAfterSeconds : ℤ

/-- The decision an upgrade prompt is built from: the gateway's own, or a service's data. -/
inductive UpgradeDecision
  | gate (decision : AccessDecision)
  | carried (data : Option Value)

inductive GatewayFailure
  | coded (code : ErrorCode) (message : JSString)
  | permissionDenied (message permission : JSString)
  | rateLimited (message : JSString) (retryAfterSeconds : ℤ)
  | upgradeRequired (message : JSString) (decision : UpgradeDecision)

/-- How `dispatch` throws: a structured failure, or anything else. -/
inductive DispatchError
  | failed (failure : GatewayFailure)
  | threw

/-- An error from a reply, as the gateway reports it. -/
def toFailure (error : WireError) : GatewayFailure :=
  if error.code = ErrorCode.upgradeRequired.name then
    .upgradeRequired error.message (.carried error.data)
  else if error.code = ErrorCode.permissionDenied.name then .permissionDenied error.message []
  else
    match [ErrorCode.notFound, .conflict, .invalidInput, .deadlineExceeded, .untrustedEnvelope,
      .unauthorized, .noActiveOrg, .serviceUnavailable].find? (·.name == error.code) with
    | some code => .coded code error.message
    | none => .coded .internal error.message

/-! ## Steps 1 to 7 -/

structure DispatchArgs where
  requestId : JSString
  resource : ResourceKey
  operation : Operation
  input : Value

/-- What the gateway's dependencies answered during one call. -/
structure DepsAnswers where
  identity : Option GatewayIdentity
  verdict : RateVerdict
  entitlements : Entitlements
  issuedAt : ℤ

/-- Step 6: the plan gate, for the operations that consume. -/
def planGate (reg : Registry) (resource : ResourceKey) (rule : OperationRule)
    (entitlements : Entitlements) : Option GatewayFailure :=
  if rule.consumes then
    match reg.checkResourceAccess resource entitlements 1 with
    | .allowed .. => none
    | .denied reason limit used nextPlan upgradeMessage =>
      some (.upgradeRequired upgradeMessage
        (.gate (.denied reason limit used nextPlan upgradeMessage)))
  else none

/-- The meta the gateway signs. -/
def metaFor (reg : Registry) (args : DispatchArgs) (identity : GatewayIdentity)
    (rule : OperationRule) (deps : DepsAnswers) : RequestMeta :=
  { requestId := args.requestId, orgId := identity.orgId, userId := identity.userId,
    role := identity.role, permissions := reg.permissionsForRole identity.role,
    plan := deps.entitlements.plan, resource := args.resource, operation := args.operation,
    issuedAt := deps.issuedAt, deadlineAt := deps.issuedAt + rule.timeoutMs, traceparent := none }

variable (crypto : Crypto) (secret : JSString)

/-- `dispatch`, up to its signed envelope. -/
def prepare (reg : Registry) (contracts : ContractMap) (args : DispatchArgs) (deps : DepsAnswers) :
    Except DispatchError Envelope :=
  match reg.ruleFor args.resource args.operation with
  | none => .error .threw
  | some rule =>
    let permission := toPermission args.resource args.operation
    match deps.identity with
    | none => .error (.failed (.coded .unauthorized (str "Sign in to continue.")))
    | some identity =>
      if identity.orgId.length = 0 then
        .error (.failed (.coded .noActiveOrg (str "Select an organisation to continue.")))
      else if ¬ roleAtLeast identity.role rule.minRole then
        .error (.failed (.permissionDenied
          (str "This action needs the " ++ rule.minRole.name ++ str " role.") permission))
      else if ¬ can (reg.permissionsForRole identity.role) args.resource args.operation then
        .error (.failed (.permissionDenied
          (str "You do not have permission to do that.") permission))
      else
        match refusedRole args.input identity.role with
        | some refused =>
          .error (.failed (.permissionDenied (str "Your " ++ identity.role.name ++
            str " role cannot grant the " ++ refused ++ str " role.") permission))
        | none =>
          if ¬ deps.verdict.ok then
            .error (.failed (.rateLimited (str "Too many requests. Try again shortly.")
              deps.verdict.retryAfterSeconds))
          else
            match planGate reg args.resource rule deps.entitlements with
            | some failure => .error (.failed failure)
            | none =>
              let m := metaFor reg args identity rule deps
              match (contracts args.resource args.operation).input args.input with
              | none => .error .threw
              | some payload =>
                match signRequest crypto m payload secret with
                | none => .error .threw
                | some signature => .ok { requestMeta := m, payload, signature }

/-- What survives steps 1 to 7. -/
structure Prepared (crypto : Crypto) (secret : JSString) (reg : Registry) (contracts : ContractMap)
    (args : DispatchArgs) (deps : DepsAnswers) (e : Envelope) (identity : GatewayIdentity)
    (rule : OperationRule) : Prop where
  declared : reg.ruleFor args.resource args.operation = some rule
  identified : deps.identity = some identity
  orgId : 1 ≤ identity.orgId.length
  permitted : toPermission args.resource args.operation ∈ reg.permissionsForRole identity.role
  unescalated : refusedRole args.input identity.role = none
  inPlan : planGate reg args.resource rule deps.entitlements = none
  requestMeta : e.requestMeta = metaFor reg args identity rule deps
  payload : (contracts args.resource args.operation).input args.input = some e.payload
  signed : signRequest crypto e.requestMeta e.payload secret = some e.signature

/-! ## The system's own calls -/

/-- `SYSTEM_TIMEOUT_MS`. -/
def systemTimeoutMs : ℤ := 4000

/-- `signedEnvelopeFor`: a call the gateway makes on its own behalf. -/
def signedEnvelopeFor (reg : Registry) (orgId : JSString) (resource : ResourceKey)
    (operation : Operation) (requestId : JSString) (issuedAt : ℤ) : Option Envelope :=
  let m : RequestMeta :=
    { requestId, orgId, userId := str "system:gateway", role := .owner,
      permissions := [toPermission resource operation], plan := reg.defaultPlan, resource,
      operation, issuedAt, deadlineAt := issuedAt + systemTimeoutMs, traceparent := none }
  (signRequest crypto m (.object []) secret).map fun signature =>
    { requestMeta := m, payload := .object [], signature }

/-! ## Steps 8 to 10 -/

/-- The subject step 8 publishes on. -/
def dispatchSubject (rule : OperationRule) (resource : ResourceKey) (operation : Operation) :
    JSString :=
  match rule.transport with
  | .command => commandSubject resource operation
  | .rpc => rpcSubject resource operation

/-- The answer to a command that was published. -/
def accept (contract : Contract) (requestId : JSString) : Except DispatchError Value :=
  match contract.output
    (.object [(str "accepted", .bool true), (str "requestId", .string requestId)]) with
  | some output => .ok output
  | none => .error .threw

/-- The binding a reply to an envelope must carry. -/
def replyBindingOf (m : RequestMeta) (ok : Bool) : ReplyBinding :=
  { requestId := m.requestId, resource := m.resource, operation := m.operation.name, ok }

/-- `rpcRequest`, from the message that came back. -/
def rpcRequest (subject : JSString) (e : Envelope) (raw : Json) :
    Except ServiceError ReplyEnvelope :=
  match parseReply raw with
  | none =>
    .error { code := .untrustedEnvelope, data := none,
             message := str "The reply on " ++ subject ++ str " is not a reply envelope." }
  | some reply =>
    if reply.requestId ≠ e.requestMeta.requestId then
      .error { code := .untrustedEnvelope, data := none,
               message := str "The reply on " ++ subject ++ str " answers a different request." }
    else if ¬ verifyReply crypto (replyBindingOf e.requestMeta reply.isOk) reply.answered
        reply.signature secret then
      .error { code := .untrustedEnvelope, data := none,
               message := str "The reply on " ++ subject ++
                 str " is not signed by the owning service." }
    else .ok reply

/-- What `nc.request` settles to.  It fails by a timeout, and so do bytes that
are not JSON. -/
inductive Response
  | failed
  | message (raw : Json)

/-- Step 9: prove who answered. -/
def proveAnswer (e : Envelope) (reply : ReplyEnvelope) : Option GatewayFailure :=
  if reply.requestId ≠ e.requestMeta.requestId then
    some (.coded .untrustedEnvelope (str "The reply does not belong to this request."))
  else if ¬ verifyReply crypto (replyBindingOf e.requestMeta reply.isOk) reply.answered
      reply.signature secret then
    some (.coded .untrustedEnvelope (str "The reply signature is not valid."))
  else none

/-- `dispatch` of an rpc, from its response on. -/
def conclude (contract : Contract) (owner : ServiceName) (subject : JSString) (e : Envelope)
    (response : Response) : Except DispatchError Value :=
  match response with
  | .failed =>
    .error (.failed (.coded .serviceUnavailable
      (str "The " ++ owner.name ++ str " service did not respond. Try again shortly.")))
  | .message raw =>
    match rpcRequest crypto secret subject e raw with
    | .error error => .error (.failed (toFailure error.toWire))
    | .ok reply =>
      match proveAnswer crypto secret e reply with
      | some failure => .error (.failed failure)
      | none =>
        match reply with
        | .refused _ _ error => .error (.failed (toFailure error))
        | .ok _ _ data =>
          match contract.output data with
          | some output => .ok output
          | none => .error .threw

/-! ## What each part establishes -/

variable {crypto secret} {reg : Registry}

/-- **Steps 1 to 7.** An envelope that was signed has survived every check that `prepare`
makes before. -/
theorem prepared_of_prepare {contracts : ContractMap} {args : DispatchArgs} {deps : DepsAnswers}
    {e : Envelope} (h : prepare crypto secret reg contracts args deps = .ok e) :
    ∃ identity rule, Prepared crypto secret reg contracts args deps e identity rule := by
  unfold prepare at h
  split at h
  · cases h
  · rename_i rule hrule
    split at h
    · cases h
    · rename_i identity hidentity
      split at h
      · cases h
      · rename_i horg
        split at h
        · cases h
        · split at h
          · cases h
          · rename_i hcan
            split at h
            · cases h
            · rename_i hrefused
              split at h
              · cases h
              · split at h
                · cases h
                · rename_i hplan
                  split at h
                  · cases h
                  · rename_i payload hpayload
                    dsimp only at h
                    split at h
                    · cases h
                    · rename_i signature hsign
                      obtain rfl := Except.ok.inj h
                      exact ⟨identity, rule, hrule, hidentity, Nat.one_le_iff_ne_zero.mpr horg,
                        can_iff.mp (not_not.mp hcan), hrefused, hplan, rfl, hpayload, hsign⟩

/-- A call that survives every check, up to the contract's parse and the signature, becomes
the signed envelope. -/
theorem prepare_of_passes {contracts : ContractMap} {args : DispatchArgs} {deps : DepsAnswers}
    {identity : GatewayIdentity} {rule : OperationRule} {payload : Value} {signature : JSString}
    (hrule : reg.ruleFor args.resource args.operation = some rule)
    (hidentity : deps.identity = some identity) (horg : 1 ≤ identity.orgId.length)
    (hrole : roleAtLeast identity.role rule.minRole = true)
    (hunescalated : refusedRole args.input identity.role = none) (hrate : deps.verdict.ok = true)
    (hplan : planGate reg args.resource rule deps.entitlements = none)
    (hpayload : (contracts args.resource args.operation).input args.input = some payload)
    (hsign : signRequest crypto (metaFor reg args identity rule deps) payload secret =
      some signature) :
    prepare crypto secret reg contracts args deps =
      .ok { requestMeta := metaFor reg args identity rule deps, payload, signature } := by
  have hcan : can (reg.permissionsForRole identity.role) args.resource args.operation = true :=
    can_iff.mpr (Registry.mem_permissionsForRole.mpr ⟨_, _, rule, hrule, hrole, rfl⟩)
  have hne : ¬ identity.orgId.length = 0 := by omega
  simp only [prepare, hrule, hidentity, hne, hrole, hcan, hunescalated, hrate, hplan, hpayload,
    hsign, not_true_eq_false, if_false]

/-- What `rpcRequest` hands on has passed its three checks: it parses, it names the request,
and its MAC verifies. -/
theorem rpcRequest_ok {subject : JSString} {e : Envelope} {raw : Json} {reply : ReplyEnvelope} :
    rpcRequest crypto secret subject e raw = .ok reply ↔
      parseReply raw = some reply ∧ reply.requestId = e.requestMeta.requestId ∧
      verifyReply crypto (replyBindingOf e.requestMeta reply.isOk) reply.answered reply.signature
        secret = true := by
  constructor
  · intro h
    unfold rpcRequest at h
    split at h
    · cases h
    · rename_i reply' hparse
      split at h
      · cases h
      · rename_i hrequest
        split at h
        · cases h
        · rename_i hverify
          obtain rfl := Except.ok.inj h
          exact ⟨hparse, not_not.mp hrequest, not_not.mp hverify⟩
  · intro ⟨hparse, hrequest, hverify⟩
    simp only [rpcRequest, hparse, hrequest, hverify, ne_eq, not_true_eq_false, if_false]

/-- Step 9 repeats the checks of `rpcRequest`: what passes one passes the other. -/
theorem proveAnswer_of_rpcRequest {subject : JSString} {e : Envelope} {raw : Json}
    {reply : ReplyEnvelope} (h : rpcRequest crypto secret subject e raw = .ok reply) :
    proveAnswer crypto secret e reply = none := by
  obtain ⟨-, hrequest, hverify⟩ := rpcRequest_ok.mp h
  simp only [proveAnswer, hrequest, hverify, ne_eq, not_true_eq_false, if_false]

end Guardrail
