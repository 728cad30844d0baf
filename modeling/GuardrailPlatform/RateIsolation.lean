import GuardrailPlatform.InMemoryLimiter
import GuardrailPlatform.RegistryData
import GuardrailPlatform.Subjects

/-!
# One tenant's allowance

Step 5 of `dispatch` asks the limiter under a key made of the organisation, the
resource and the operation.  Whatever an organisation is called, its keys are
its own: the last two fields hold no colon, so a key is cut in one way.  The
limiter keeps each key apart, and what one tenant is told does not depend on
what any other does.
-/

namespace Guardrail

open Js

/-! ## Step 5 -/

/-- The key of the fifth step. -/
def limiterKey (orgId : JSString) (resource : ResourceKey) (operation : Operation) : JSString :=
  str "org:" ++ orgId ++ str ":" ++ resource ++ str ":" ++ operation.name

/-- What a call asks of the limiter, where it gets as far as the fifth step. -/
def limiterArgs (reg : Registry) (args : DispatchArgs) :
    Option GatewayIdentity → Option (JSString × RateLimit)
  | none => none
  | some identity =>
    match reg.resource? args.resource, reg.ruleFor args.resource args.operation with
    | some definition, some rule =>
      if identity.orgId.length = 0 then none
      else if ¬ roleAtLeast identity.role rule.minRole then none
      else if ¬ can (reg.permissionsForRole identity.role) args.resource args.operation then none
      else if (refusedRole args.input identity.role).isSome then none
      else some (limiterKey identity.orgId args.resource args.operation, definition.rateLimit)
    | _, _ => none

variable {crypto : Crypto} {secret : JSString} {reg : Registry} {contracts : ContractMap}

/-- A call that the limiter refuses is answered with the limiter's hint, whatever else it
carries. -/
theorem prepare_of_limited {args : DispatchArgs} {deps : DepsAnswers}
    {asked : JSString × RateLimit} (h : limiterArgs reg args deps.identity = some asked)
    (hrefused : deps.verdict.ok = false) :
    prepare crypto secret reg contracts args deps =
      .error (.failed (.rateLimited (str "Too many requests. Try again shortly.")
        deps.verdict.retryAfterSeconds)) := by
  unfold limiterArgs at h
  split at h
  · cases h
  · rename_i identity hidentity
    split at h
    · rename_i definition rule hresource hrule
      split at h
      · cases h
      · split at h
        · cases h
        · split at h
          · cases h
          · split at h
            · cases h
            · rename_i horg hrole hcan hunescalated
              have hnone : refusedRole args.input identity.role = none := by
                simpa using hunescalated
              simp only [prepare, hrule, hidentity, horg, hrole, hcan, hnone, hrefused, if_false,
                Bool.false_eq_true, not_false_eq_true, if_true]
    · cases h

/-- A call that does not get so far is not the limiter's business. -/
theorem prepare_of_not_limited {args : DispatchArgs} {deps : DepsAnswers}
    (h : limiterArgs reg args deps.identity = none) (verdict : RateVerdict) :
    prepare crypto secret reg contracts args { deps with verdict } =
      prepare crypto secret reg contracts args deps := by
  unfold limiterArgs at h
  unfold prepare
  cases hrule : reg.ruleFor args.resource args.operation with
  | none => rfl
  | some rule =>
      obtain ⟨definition, hresource, -⟩ := Option.bind_eq_some_iff.mp hrule
      cases hidentity : deps.identity with
      | none => rfl
      | some identity =>
          simp only [hidentity, hresource, hrule] at h
          dsimp only
          split
          · rfl
          · split
            · rfl
            · split
              · rfl
              · cases hrefused : refusedRole args.input identity.role with
                | some refused => rfl
                | none => simp_all

/-! ## Runs of calls -/

/-- A call of `dispatch`, and the clock as its limiter reads it. -/
structure DispatchCall where
  number : ℕ
  args : DispatchArgs
  identity : Option GatewayIdentity
  now : ℤ
  reading : ℤ

/-- A call gets to its fifth step; the limiter answers it. -/
inductive DispatchEvent
  | limit (call : DispatchCall)
  | verdict (call : DispatchCall)

def DispatchEvent.call : DispatchEvent → DispatchCall
  | .limit call => call
  | .verdict call => call

/-- Is the call one of the organisation's, on the resource and operation? -/
def DispatchCall.isOf (call : DispatchCall) (orgId : JSString) (resource : ResourceKey)
    (operation : Operation) : Bool :=
  call.identity.any (fun identity => identity.orgId = orgId) && call.args.resource = resource &&
    call.args.operation = operation

/-- The limiter's part of a call. -/
def rateCallOf (reg : Registry) (call : DispatchCall) : Option RateCall :=
  (limiterArgs reg call.args call.identity).map fun asked =>
    { number := call.number, key := asked.1, limit := asked.2, now := call.now,
      reading := call.reading }

/-- What an event is to the limiter. -/
def limiterEvent (reg : Registry) : DispatchEvent → Option LimiterEvent
  | .limit call => (rateCallOf reg call).map .start
  | .verdict call => (rateCallOf reg call).map fun c => .decide c.key c.number

def limiterHistory (reg : Registry) (history : List DispatchEvent) : List LimiterEvent :=
  history.filterMap (limiterEvent reg)

/-- The verdict a call has by the end of a history.  A limiter that is switched
off admits every call, and its store is left alone. -/
def verdictOn (disabled : Bool) (reg : Registry) (history : List DispatchEvent)
    (call : DispatchCall) : Option RateVerdict :=
  (rateCallOf reg call).bind fun c =>
    if disabled then some { ok := true, retryAfterSeconds := 0 }
    else
      ((Limiter.after (limiterHistory reg history) c.key).calls.find?
        (fun counted => counted.call.number == c.number)).bind CountedCall.verdict

/-- The verdicts an organisation gets on a resource and operation, call by call. -/
def verdictsOf (disabled : Bool) (reg : Registry) (history : List DispatchEvent)
    (orgId : JSString) (resource : ResourceKey) (operation : Operation) :
    List (Option RateVerdict) :=
  (history.filter fun event => event.call.isOf orgId resource operation).filterMap fun event =>
    match event with
    | .limit call => some (verdictOn disabled reg history call)
    | .verdict _ => none

/-! ## Keys -/

/-- No operation's name holds the colon that the parts of a limiter's key are joined with.
-/
theorem colon_notMem_operation (operation : Operation) : (58 : UInt16) ∉ operation.name := by
  cases operation <;> decide

/-- A key gives its organisation, resource and operation, whatever the organisation is called. -/
theorem limiterKey_injective {orgId orgId' : JSString} {resource resource' : ResourceKey}
    {operation operation' : Operation} (hresource : (58 : UInt16) ∉ resource)
    (hresource' : (58 : UInt16) ∉ resource')
    (h : limiterKey orgId resource operation = limiterKey orgId' resource' operation') :
    orgId = orgId' ∧ resource = resource' ∧ operation = operation' := by
  have hcut : ∀ (orgId : JSString) (resource : ResourceKey) (operation : Operation),
      limiterKey orgId resource operation =
        ((str "org:" ++ orgId) ++ 58 :: resource) ++ 58 :: operation.name := by
    intro orgId resource operation
    simp only [limiterKey, List.append_assoc]
    rfl
  rw [hcut, hcut] at h
  obtain ⟨hfront, hoperation⟩ := Subjects.last_separator_injective (colon_notMem_operation _)
    (colon_notMem_operation _) h
  obtain ⟨horg, hresource⟩ := Subjects.last_separator_injective hresource hresource' hfront
  exact ⟨List.append_cancel_left horg, hresource, Operation.name_injective hoperation⟩

/-- The keys of the shipped resources hold no colon, so limiter keys can be taken apart. -/
theorem registry_colon_free : ∀ resource ∈ registry.resourceKeys, (58 : UInt16) ∉ resource := by
  decide

/-! ## The limiter keeps keys apart -/

/-- The ledger of a key depends on those events alone that name the key. -/
theorem after_filter_key (history : List LimiterEvent) (key : JSString) :
    Limiter.after (history.filter fun event => event.key = key) key =
      Limiter.after history key := by
  induction history with
  | nil => rfl
  | cons event history ih =>
      by_cases hkey : event.key = key
      · rw [List.filter_cons_of_pos (by simpa using hkey)]
        cases event with
        | start call =>
            obtain rfl : call.key = key := hkey
            rw [Limiter.after_start, Limiter.after_start, ih]
        | decide other number =>
            obtain rfl : other = key := hkey
            rw [Limiter.after_decide, Limiter.after_decide, ih]
      · rw [List.filter_cons_of_neg (by simpa using hkey), Limiter.after_cons_other hkey, ih]

/-- A call that asks the limiter has an identified caller and a declared resource, and asks
under both. -/
theorem limiterArgs_eq_some {args : DispatchArgs} {identity : Option GatewayIdentity}
    {asked : JSString × RateLimit} (h : limiterArgs reg args identity = some asked) :
    ∃ caller definition, identity = some caller ∧ reg.resource? args.resource = some definition ∧
      asked = (limiterKey caller.orgId args.resource args.operation, definition.rateLimit) := by
  unfold limiterArgs at h
  split at h
  · cases h
  · rename_i caller
    split at h
    · rename_i definition rule hresource hrule
      split at h
      · cases h
      · split at h
        · cases h
        · split at h
          · cases h
          · split at h
            · cases h
            · exact ⟨caller, definition, rfl, hresource, (Option.some.inj h).symm⟩
    · cases h

/-- A resource that has a definition in the registry is among its declared keys. -/
theorem mem_resourceKeys_of_resource? {resource : ResourceKey} {definition : ResourceDefinition}
    (h : reg.resource? resource = some definition) : resource ∈ reg.resourceKeys :=
  List.mem_map.mpr ⟨(resource, definition), Registry.resource?_eq_some.mp h, rfl⟩

/-- What an event under a key is to the limiter, it is to the key's organisation. -/
theorem key_limiterEvent (hcolon : ∀ resource ∈ reg.resourceKeys, (58 : UInt16) ∉ resource)
    (orgId : JSString) {resource : ResourceKey} (operation : Operation)
    (hresource : (58 : UInt16) ∉ resource) {event : DispatchEvent} {asked : LimiterEvent}
    (h : limiterEvent reg event = some asked) :
    asked.key = limiterKey orgId resource operation ↔
      event.call.isOf orgId resource operation = true := by
  have hcall : ∃ c, rateCallOf reg event.call = some c ∧ asked.key = c.key := by
    cases event with
    | limit call =>
        obtain ⟨c, hc, rfl⟩ := Option.map_eq_some_iff.mp h
        exact ⟨c, hc, rfl⟩
    | verdict call =>
        obtain ⟨c, hc, rfl⟩ := Option.map_eq_some_iff.mp h
        exact ⟨c, hc, rfl⟩
  obtain ⟨c, hc, hkey⟩ := hcall
  obtain ⟨_, hargs, rfl⟩ := Option.map_eq_some_iff.mp hc
  obtain ⟨caller, definition, hidentity, hdeclared, rfl⟩ := limiterArgs_eq_some hargs
  rw [hkey]
  unfold DispatchCall.isOf
  simp only [hidentity, Option.any_some, Bool.and_eq_true, decide_eq_true_eq]
  constructor
  · intro heq
    obtain ⟨horg, hres, hop⟩ := limiterKey_injective
      (hcolon _ (mem_resourceKeys_of_resource? hdeclared)) hresource heq
    exact ⟨⟨horg, hres⟩, hop⟩
  · intro heq
    obtain ⟨⟨horg, hres⟩, hop⟩ := heq
    rw [horg, hres, hop]

/-- The limiter's events under an organisation's key are the events of that organisation's
own dispatches. -/
theorem filter_limiterHistory
    (hcolon : ∀ resource ∈ reg.resourceKeys, (58 : UInt16) ∉ resource) {orgId : JSString}
    {resource : ResourceKey} {operation : Operation} (hresource : (58 : UInt16) ∉ resource)
    (history : List DispatchEvent) :
    (limiterHistory reg history).filter
        (fun event => event.key = limiterKey orgId resource operation) =
      limiterHistory reg
        (history.filter fun event => event.call.isOf orgId resource operation) := by
  unfold limiterHistory
  rw [List.filter_filterMap, List.filterMap_filter]
  apply List.filterMap_congr
  intro event _
  cases hasked : limiterEvent reg event with
  | none => rw [Option.filter_none, ite_self]
  | some asked =>
      have hkey := key_limiterEvent hcolon orgId operation hresource hasked
      by_cases hof : event.call.isOf orgId resource operation = true
      · rw [Option.filter_some, if_pos (by simpa using hkey.mpr hof), if_pos hof]
      · rw [Option.filter_some, if_neg (by simpa using fun h => hof (hkey.mp h)), if_neg hof]

/-- A tenant's verdict is the same in two runs with the same calls of its own. -/
theorem verdictOn_isolated
    (hcolon : ∀ resource ∈ reg.resourceKeys, (58 : UInt16) ∉ resource) (disabled : Bool)
    {history history' : List DispatchEvent} {orgId : JSString} {resource : ResourceKey}
    {operation : Operation}
    (hsame : history.filter (fun event => event.call.isOf orgId resource operation) =
      history'.filter fun event => event.call.isOf orgId resource operation)
    {call : DispatchCall} (hof : call.isOf orgId resource operation = true) :
    verdictOn disabled reg history call = verdictOn disabled reg history' call := by
  unfold verdictOn
  cases hc : rateCallOf reg call with
  | none => rfl
  | some c =>
      obtain ⟨asked, hargs, rfl⟩ := Option.map_eq_some_iff.mp hc
      obtain ⟨caller, definition, hidentity, hdeclared, rfl⟩ := limiterArgs_eq_some hargs
      have hresource : call.args.resource = resource ∧ caller.orgId = orgId ∧
          call.args.operation = operation := by
        unfold DispatchCall.isOf at hof
        simp only [hidentity, Option.any_some, Bool.and_eq_true, decide_eq_true_eq] at hof
        exact ⟨hof.1.2, hof.1.1, hof.2⟩
      obtain ⟨rfl, rfl, rfl⟩ := hresource
      have hfree := hcolon _ (mem_resourceKeys_of_resource? hdeclared)
      have hledger : Limiter.after (limiterHistory reg history)
          (limiterKey caller.orgId call.args.resource call.args.operation) =
            Limiter.after (limiterHistory reg history')
              (limiterKey caller.orgId call.args.resource call.args.operation) := by
        rw [← after_filter_key, filter_limiterHistory hcolon hfree, hsame,
          ← filter_limiterHistory hcolon hfree, after_filter_key]
      simp only [Option.bind_some, hledger]

/-- **One tenant cannot starve another.**  In two runs with the same calls of one
organisation on a resource and operation, and any others besides, the
organisation gets the same verdicts there. -/
theorem limiter_tenants_isolated (disabled : Bool) (history history' : List DispatchEvent)
    (orgId : JSString) (resource : ResourceKey) (operation : Operation)
    (hsame : history.filter (fun event => event.call.isOf orgId resource operation) =
      history'.filter fun event => event.call.isOf orgId resource operation) :
    verdictsOf disabled registry history orgId resource operation =
      verdictsOf disabled registry history' orgId resource operation := by
  unfold verdictsOf
  rw [hsame]
  apply List.filterMap_congr
  intro event hevent
  obtain ⟨-, hof⟩ := List.mem_filter.mp hevent
  cases event with
  | limit call => exact congrArg some (verdictOn_isolated registry_colon_free disabled hsame hof)
  | verdict call => rfl

/-- An owner's project listing. -/
def listingOf (number : ℕ) (orgId : JSString) (now : ℤ) : DispatchCall where
  number := number
  args := { requestId := str "request-1", resource := str "project", operation := .read,
            input := .object [] }
  identity := some { userId := str "user-1", orgId, role := .owner }
  now := now
  reading := now

/-- A tenant named after another tenant's key, and calling all the while. -/
theorem limiter_tenants_isolated_acme :
    verdictsOf false registry [.verdict (listingOf 1 (str "acme") 0),
        .limit (listingOf 1 (str "acme") 0)] (str "acme") (str "project") .read =
      verdictsOf false registry [.verdict (listingOf 1 (str "acme") 0),
        .limit (listingOf 3 (str "acme:project:read") 2),
        .verdict (listingOf 2 (str "acme:project:read") 1),
        .limit (listingOf 2 (str "acme:project:read") 1),
        .limit (listingOf 1 (str "acme") 0)] (str "acme") (str "project") .read ∧
    verdictsOf false registry [.verdict (listingOf 1 (str "acme") 0),
        .limit (listingOf 1 (str "acme") 0)] (str "acme") (str "project") .read =
      [some ⟨true, 0⟩] :=
  ⟨limiter_tenants_isolated false _ _ _ _ _ rfl, rfl⟩

end Guardrail
