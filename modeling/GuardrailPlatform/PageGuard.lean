import GuardrailPlatform.AccessControl
import GuardrailPlatform.Contracts

/-!
# The route guard and the gateway

A page that makes no call is not covered by `dispatch`, so the dashboard's
layout asks the registry the same two questions for the resource its path
belongs to: may the role read it, and does the plan include it.

`dispatch` asks the second question only of operations that consume.  The two
agree, then, exactly where a resource outside the plan has a read that
consumes; a read that does not consume goes through although its page is
locked.
-/

namespace Guardrail

open Js

/-! ## Navigation -/

structure NavItem where
  entry : NavEntry
  resource : ResourceKey

structure NavAccess where
  visible : Bool
  locked : Bool
deriving DecidableEq

/-- What a page request comes to. -/
inductive PageOutcome
  | redirect (href : JSString)
  | render
deriving DecidableEq

namespace Registry

variable (reg : Registry)

/-- `NAV_ITEMS`, stably sorted by their order. -/
def navItems : List NavItem :=
  (reg.resources.filterMap fun (resource, definition) =>
    definition.nav.map fun entry => ⟨entry, resource⟩).insertionSort
      fun a b => a.entry.order ≤ b.entry.order

/-- The nav item with the longest href the path starts with. -/
def resourceForPath (pathname : JSString) : Option ResourceKey :=
  (reg.navItems.foldl (fun best item =>
    let href := item.entry.href
    if pathname == href || (href ++ str "/").isPrefixOf pathname then
      match best with
      | none => some item
      | some current => if href.length > current.entry.href.length then some item else best
    else best) (none : Option NavItem)).map (·.resource)

def isInPlan (resource : ResourceKey) (plan : PlanKey) : Bool :=
  reg.limitFor resource plan != .notIncluded

/-- `visible` answers permission, `locked` answers plan. -/
def navAccess (resource : ResourceKey) (role : OrgRole) (entitlements : Entitlements) : NavAccess :=
  match (reg.operationsOf resource).find? (fun operation =>
    operation == .read || operation == .manage) with
  | none => { visible := false, locked := false }
  | some readable =>
    { visible := (reg.ruleFor resource readable).any fun rule => roleAtLeast role rule.minRole,
      locked := !reg.isInPlan resource entitlements.plan }

/-- What the layout decides for a page of a resource. -/
def guardPage (resource : ResourceKey) (role : OrgRole) (entitlements : Entitlements) :
    PageOutcome :=
  let access := reg.navAccess resource role entitlements
  if ¬ access.visible then .redirect (str "/projects")
  else if access.locked then .redirect (str "/billing?locked=" ++ resource)
  else .render

/-- `DashboardLayout`, up to what it renders. -/
def dashboardLayout (identity : Option GatewayIdentity) (entitlements : Entitlements)
    (pathname : JSString) : PageOutcome :=
  match identity with
  | none => .redirect (str "/sign-in")
  | some identity =>
    match reg.resourceForPath pathname with
    | none => .render
    | some resource => reg.guardPage resource identity.role entitlements

end Registry

/-! ## The two decisions -/

variable {crypto : Crypto} {secret : JSString} {reg : Registry} {contracts : ContractMap}

/-- Of the operations that make a resource readable, a declared read comes first. -/
theorem find_readable {resource : ResourceKey} {rule : OperationRule}
    (hrule : reg.ruleFor resource .read = some rule) :
    (reg.operationsOf resource).find? (fun operation =>
      operation == .read || operation == .manage) = some .read := by
  have hread : (reg.ruleFor resource .read).isSome = true := by rw [hrule]; rfl
  unfold Registry.operationsOf operations
  cases hcreate : (reg.ruleFor resource .create).isSome <;>
    simp [List.filter_cons, hcreate, hread]

/-- The guard of a readable resource: its read's role, and its plan. -/
theorem guardPage_render {resource : ResourceKey} {rule : OperationRule} {role : OrgRole}
    {entitlements : Entitlements} (hrule : reg.ruleFor resource .read = some rule) :
    reg.guardPage resource role entitlements = .render ↔
      roleAtLeast role rule.minRole = true ∧ reg.isInPlan resource entitlements.plan = true := by
  unfold Registry.guardPage Registry.navAccess
  rw [find_readable hrule]
  cases hrole : roleAtLeast role rule.minRole <;>
    cases reg.isInPlan resource entitlements.plan <;>
      simp [hrule, hrole]

/-- The layout renders a path of a resource where its guard does. -/
theorem dashboardLayout_of_resource {identity : GatewayIdentity} {entitlements : Entitlements}
    {pathname : JSString} {resource : ResourceKey}
    (hpath : reg.resourceForPath pathname = some resource) :
    reg.dashboardLayout (some identity) entitlements pathname =
      reg.guardPage resource identity.role entitlements := by
  simp only [Registry.dashboardLayout, hpath]

/-- A consuming operation outside the plan does not pass the plan gate. -/
theorem planGate_of_excluded {resource : ResourceKey} {rule : OperationRule}
    {entitlements : Entitlements} (hconsumes : rule.consumes = true)
    (hplan : reg.isInPlan resource entitlements.plan = false) :
    ∃ failure, planGate reg resource rule entitlements = some failure := by
  have hlimit : reg.limitFor resource entitlements.plan = .notIncluded := by
    simpa [Registry.isInPlan] using hplan
  simp [planGate, hconsumes, Registry.checkResourceAccess, hlimit]

/-- `dispatch` of the resource's read is refused before anything is published,
whatever is asked and whoever holds the role. -/
def RefusesRead (crypto : Crypto) (secret : JSString) (reg : Registry) (contracts : ContractMap)
    (resource : ResourceKey) (role : OrgRole) (entitlements : Entitlements) : Prop :=
  ∀ args deps identity, args.resource = resource → args.operation = .read →
    deps.identity = some identity → identity.role = role → deps.entitlements = entitlements →
      ∃ error, prepare crypto secret reg contracts args deps = .error error

/-- A role that is too low is refused the read, whatever else the call has. -/
theorem refusesRead_of_role {resource : ResourceKey} {rule : OperationRule} {role : OrgRole}
    {entitlements : Entitlements} (hrule : reg.ruleFor resource .read = some rule)
    (hrole : roleAtLeast role rule.minRole = false) :
    RefusesRead crypto secret reg contracts resource role entitlements := by
  rintro args deps identity rfl hread hidentity rfl -
  cases hprepare : prepare crypto secret reg contracts args deps with
  | error error => exact ⟨error, rfl⟩
  | ok e =>
      obtain ⟨identity', rule', hprepared⟩ := prepared_of_prepare hprepare
      obtain rfl := Option.some.inj (hidentity.symm.trans hprepared.identified)
      have hdeclared := hprepared.declared
      have hpermitted := hprepared.permitted
      rw [hread] at hdeclared hpermitted
      have hheld := (can_permissionsForRole hrule).mp (can_iff.mpr hpermitted)
      exact absurd (hheld.symm.trans hrole) (by decide)

/-- Where a read consumes, a plan without the resource is refused it. -/
theorem refusesRead_of_consumes {resource : ResourceKey} {rule : OperationRule} {role : OrgRole}
    {entitlements : Entitlements} (hrule : reg.ruleFor resource .read = some rule)
    (hconsumes : rule.consumes = true)
    (hplan : reg.isInPlan resource entitlements.plan = false) :
    RefusesRead crypto secret reg contracts resource role entitlements := by
  rintro args deps identity rfl hread - - rfl
  cases hprepare : prepare crypto secret reg contracts args deps with
  | error error => exact ⟨error, rfl⟩
  | ok e =>
      obtain ⟨identity', rule', hprepared⟩ := prepared_of_prepare hprepare
      have hdeclared := hprepared.declared
      rw [hread] at hdeclared
      obtain rfl := Option.some.inj (hrule.symm.trans hdeclared)
      obtain ⟨failure, hfailure⟩ := planGate_of_excluded hconsumes hplan
      rw [hprepared.inPlan] at hfailure
      cases hfailure

/-- A read that does not consume is signed for any role that reaches it. -/
theorem not_refusesRead {resource : ResourceKey} {rule : OperationRule} {role : OrgRole}
    {entitlements : Entitlements} (hrule : reg.ruleFor resource .read = some rule)
    (hrole : roleAtLeast role rule.minRole = true) (hconsumes : rule.consumes = false)
    {input payload : Value} {text : JSString}
    (hinput : (contracts resource .read).input input = some payload)
    (hnamed : refusedRole input role = none) (htext : canonicalJson payload = some text) :
    ¬ RefusesRead crypto secret reg contracts resource role entitlements := by
  intro hrefuses
  let args : DispatchArgs :=
    { requestId := str "request-1", resource := resource, operation := .read, input := input }
  let identity : GatewayIdentity := { userId := str "u", orgId := str "o", role := role }
  let deps : DepsAnswers :=
    { identity := some identity, verdict := { ok := true, retryAfterSeconds := 0 },
      entitlements := entitlements, issuedAt := 0 }
  obtain ⟨signature, hsigned⟩ := @Statement.sign_isSome crypto
    (.envelope .request (metaFor reg args identity rule deps) payload) text htext secret
  have hplan : planGate reg args.resource rule deps.entitlements = none := by
    simp [planGate, hconsumes]
  have horg : 1 ≤ (str "o").length := by decide
  obtain ⟨error, herror⟩ := hrefuses args deps identity rfl rfl rfl rfl rfl
  rw [prepare_of_passes hrule rfl horg hrole hnamed rfl hplan hinput hsigned] at herror
  cases herror

/-- The read has an input the gateway can send: its contract accepts it, it
names no role above the caller's, and what is parsed of it can be signed. -/
def Sendable (contracts : ContractMap) (resource : ResourceKey) (role : OrgRole) : Prop :=
  ∃ input payload, (contracts resource .read).input input = some payload ∧
    refusedRole input role = none ∧ (canonicalise payload).isSome = true

/-- Where no input can be sent at all, no read is ever let through. -/
theorem refusesRead_of_not_sendable {resource : ResourceKey} {role : OrgRole}
    {entitlements : Entitlements} (hnever : ¬ Sendable contracts resource role) :
    RefusesRead crypto secret reg contracts resource role entitlements := by
  rintro args deps identity rfl hread hidentity rfl -
  cases hprepare : prepare crypto secret reg contracts args deps with
  | error error => exact ⟨error, rfl⟩
  | ok e =>
      obtain ⟨identity', rule', hprepared⟩ := prepared_of_prepare hprepare
      obtain rfl := Option.some.inj (hidentity.symm.trans hprepared.identified)
      have hpayload := hprepared.payload
      rw [hread] at hpayload
      have hsignable : (canonicalise e.payload).isSome = true :=
        canonicalise_of_sign (s := .envelope .request e.requestMeta e.payload) hprepared.signed
      exact absurd ⟨args.input, e.payload, hpayload, hprepared.unescalated, hsignable⟩ hnever

/-- **Where the guard and the gateway agree.**  For a path of a resource that
declares a read, a page the layout refuses is a read the gateway refuses exactly
when the role does not reach the read, or no input of it could be sent at all, or
the plan includes the resource, or the read consumes. -/
theorem page_guard_agrees_iff (crypto : Crypto) (secret : JSString) (reg : Registry)
    (contracts : ContractMap) {pathname : JSString} {resource : ResourceKey} {rule : OperationRule}
    (identity : GatewayIdentity) (entitlements : Entitlements)
    (hpath : reg.resourceForPath pathname = some resource)
    (hrule : reg.ruleFor resource .read = some rule) :
    (reg.dashboardLayout (some identity) entitlements pathname ≠ .render →
      RefusesRead crypto secret reg contracts resource identity.role entitlements) ↔
    (roleAtLeast identity.role rule.minRole = true → Sendable contracts resource identity.role →
      reg.isInPlan resource entitlements.plan = true ∨ rule.consumes = true) := by
  rw [dashboardLayout_of_resource hpath]
  constructor
  · intro hagree hrole hsendable
    obtain ⟨input, payload, hinput, hnamed, hsignable⟩ := hsendable
    obtain ⟨form, hform⟩ := Option.isSome_iff_exists.mp hsignable
    have htext : canonicalJson payload = some (render form) := by rw [canonicalJson, hform]; rfl
    by_contra hneither
    rw [not_or, Bool.not_eq_true, Bool.not_eq_true] at hneither
    have hlocked : reg.guardPage resource identity.role entitlements ≠ .render := by
      rw [ne_eq, guardPage_render hrule, hneither.1]
      simp
    exact not_refusesRead hrule hrole hneither.2 hinput hnamed htext (hagree hlocked)
  · intro hcondition hrefused
    by_cases hrole : roleAtLeast identity.role rule.minRole = true
    · by_cases hsendable : Sendable contracts resource identity.role
      · have hplan : reg.isInPlan resource entitlements.plan = false := by
          rw [ne_eq, guardPage_render hrule] at hrefused
          exact Bool.eq_false_iff.mpr fun h => hrefused ⟨hrole, h⟩
        rcases hcondition hrole hsendable with h | hconsumes
        · exact absurd (h.symm.trans hplan) (by decide)
        · exact refusesRead_of_consumes hrule hconsumes hplan
      · exact refusesRead_of_not_sendable hsendable
    · exact refusesRead_of_role hrule (Bool.eq_false_iff.mpr hrole)

/-! ## The audit log -/

/-- The default plan's entitlements. -/
def freeSnapshot : Entitlements := registry.emptyEntitlements

def auditor : GatewayIdentity := { userId := str "ada", orgId := str "acme", role := .admin }

/-- An admin on the free plan is turned away from the audit log's page, and
reads it through the gateway. -/
theorem audit_log_locked_and_read :
    registry.resourceForPath (str "/audit") = some (str "auditLog") ∧
      ¬ (registry.dashboardLayout (some auditor) freeSnapshot (str "/audit") ≠ .render →
        RefusesRead .transparent (str "secret") registry (contractFor roughFormats) (str "auditLog")
          .admin freeSnapshot) := by
  have hpath : registry.resourceForPath (str "/audit") = some (str "auditLog") := by decide
  have hlocked : registry.dashboardLayout (some auditor) freeSnapshot (str "/audit") ≠
      .render := by
    rw [dashboardLayout_of_resource hpath]
    decide
  obtain ⟨rule, hrule, hrole, hconsumes⟩ : ∃ rule,
      registry.ruleFor (str "auditLog") .read = some rule ∧
        roleAtLeast .admin rule.minRole = true ∧ rule.consumes = false := ⟨_, rfl, by decide, rfl⟩
  have hinput : ((contractFor roughFormats) (str "auditLog") .read).input (.object []) =
      some (.object [(str "limit", .number (.finite (.ofInt 50)))]) := rfl
  refine ⟨hpath, fun hagree => ?_⟩
  exact not_refusesRead hrule hrole hconsumes hinput (by decide) rfl (hagree hlocked)

/-- The pro plan includes the audit log, and there they agree about it. -/
theorem audit_log_agrees_on_pro :
    registry.isInPlan (str "auditLog") (str "pro") = true ∧
      (registry.dashboardLayout (some auditor) ⟨str "pro", fun _ => none⟩ (str "/audit") ≠
          .render →
        RefusesRead .transparent (str "secret") registry (contractFor roughFormats) (str "auditLog")
          .admin ⟨str "pro", fun _ => none⟩) := by
  have hplan : registry.isInPlan (str "auditLog") (str "pro") = true := by decide
  have hpath : registry.resourceForPath (str "/audit") = some (str "auditLog") := by decide
  obtain ⟨rule, hrule⟩ : ∃ rule, registry.ruleFor (str "auditLog") .read = some rule := ⟨_, rfl⟩
  have hagree := (page_guard_agrees_iff .transparent (str "secret") registry
    (contractFor roughFormats) auditor ⟨str "pro", fun _ => none⟩ hpath hrule).mpr
  exact ⟨hplan, hagree fun _ _ => .inl hplan⟩

end Guardrail
