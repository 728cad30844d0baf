import GuardrailPlatform.Denials
import GuardrailPlatform.PageGuard
import GuardrailPlatform.RoleColumn

/-!
# The client mirror

The dashboard hands its pages the entitlements, the role and the permissions
the gateway would use, and the components ask the registry the gateway's own
questions of them.  So a control is offered where the gateway would let its
call through, hidden where the role is refused, and replaced by the gateway's
own upgrade copy where the plan is; and a refusal that still happens is shown
as what it is.
-/

namespace Guardrail

open Js

/-! ## The gates -/

/-- What `ViewerProvider` carries. -/
structure ViewerState where
  entitlements : Entitlements
  permissions : List JSString
  role : OrgRole

/-- What a gate renders: its children, the fallback it was given, or the upgrade
prompt of a denial. -/
inductive Node
  | nothing
  | children
  | fallback
  | prompt (text : JSString) (nextPlan : Option PlanKey)
deriving DecidableEq

namespace Registry

variable (reg : Registry)

/-- The viewer the layout provides. -/
def viewerFor (identity : GatewayIdentity) (entitlements : Entitlements) : ViewerState :=
  { entitlements, permissions := reg.permissionsForRole identity.role, role := identity.role }

end Registry

section Gates

variable (reg : Registry) (viewer : ViewerState) (resource : ResourceKey) (operation : Operation)

/-- `usePermission`. -/
def usePermission : Bool := can viewer.permissions resource operation

/-- `useResourceDecision`. -/
def useResourceDecision (requested : Option ℤ) : AccessDecision :=
  reg.checkResourceAccess resource viewer.entitlements (requested.getD 1)

/-- `<AccessGate>`: no fallback. -/
def accessGate (inner : Node) : Node :=
  if usePermission viewer resource operation then inner else .nothing

/-- The fallback a gate was given, or its denial's own copy. -/
def fallbackOf (hasFallback : Bool) (upgradeMessage : JSString) (nextPlan : Option PlanKey) : Node :=
  if hasFallback then .fallback else .prompt upgradeMessage nextPlan

/-- `<FeatureGate>`: is the resource in the plan at all? -/
def featureGate (hasFallback : Bool) (inner : Node) : Node :=
  match useResourceDecision reg viewer resource none with
  | .denied .notInPlan _ _ nextPlan upgradeMessage => fallbackOf hasFallback upgradeMessage nextPlan
  | _ => inner

/-- `<PriceGate>`: is some of the allowance left? -/
def priceGate (requested : Option ℤ) (hasFallback : Bool) (inner : Node) : Node :=
  match useResourceDecision reg viewer resource requested with
  | .denied .limitReached _ _ nextPlan upgradeMessage =>
    fallbackOf hasFallback upgradeMessage nextPlan
  | _ => inner

/-- `<Gate>`: permission, then plan, then allowance. -/
def gate (hasFallback : Bool) : Node :=
  accessGate viewer resource operation
    (featureGate reg viewer resource hasFallback
      (priceGate reg viewer resource none hasFallback .children))

/-- `useAccess(...).allowed`. -/
def useAccess : Bool :=
  usePermission viewer resource operation &&
    match useResourceDecision reg viewer resource none with
    | .allowed .. => true
    | .denied .. => false

end Gates

/-! ## The gates and `dispatch` -/

variable {crypto : Crypto} {secret : JSString} {reg : Registry} {contracts : ContractMap}

/-- A call that passes every check of `dispatch` other than the two the gates ask about. -/
structure Sound (reg : Registry) (contracts : ContractMap) (args : DispatchArgs) (deps : DepsAnswers)
    (identity : GatewayIdentity) (rule : OperationRule) : Prop where
  declared : reg.ruleFor args.resource args.operation = some rule
  identified : deps.identity = some identity
  orgId : 1 ≤ identity.orgId.length
  unescalated : refusedRole args.input identity.role = none
  withinRate : deps.verdict.ok = true
  sendable : ∃ payload, (contracts args.resource args.operation).input args.input = some payload ∧
    (canonicalise payload).isSome = true

/-- What dispatching the call comes to, as a gate announces it. -/
def Announces (node : Node) (args : DispatchArgs) (outcome : Except DispatchError Envelope) : Prop :=
  match node with
  | .nothing => ∃ message, outcome = .error (.failed (.permissionDenied message
      (toPermission args.resource args.operation)))
  | .children => ∃ e, outcome = .ok e
  | .fallback => ∃ text decision, outcome = .error (.failed (.upgradeRequired text decision))
  | .prompt text nextPlan => ∃ reason limit used, outcome = .error (.failed
      (.upgradeRequired text (.gate (.denied reason limit used nextPlan text))))

/-- A payload with a canonical form can be signed, whatever the meta and the secret are. -/
theorem sign_of_sendable {m : RequestMeta} {payload : Value}
    (h : (canonicalise payload).isSome = true) :
    ∃ signature, signRequest crypto m payload secret = some signature := by
  obtain ⟨form, hform⟩ := Option.isSome_iff_exists.mp h
  have htext : canonicalJson payload = some (render form) := by rw [canonicalJson, hform]; rfl
  exact @Statement.sign_isSome crypto (.envelope .request m payload) _ htext secret

variable {args : DispatchArgs} {deps : DepsAnswers} {identity : GatewayIdentity} {rule : OperationRule}

/-- A call that passes the other checks is refused by the role gate where its caller's role
is too low. -/
theorem Sound.refused_of_role (h : Sound reg contracts args deps identity rule)
    (hrole : roleAtLeast identity.role rule.minRole = false) :
    ∃ message, prepare crypto secret reg contracts args deps = .error (.failed
      (.permissionDenied message (toPermission args.resource args.operation))) := by
  have horg : ¬ identity.orgId.length = 0 := Nat.one_le_iff_ne_zero.mp h.orgId
  simp only [prepare, h.declared, h.identified, horg, hrole, if_false, Bool.false_eq_true,
    not_false_eq_true, if_true]
  exact ⟨_, rfl⟩

/-- For a sound call the mirror's permission check is a comparison of ranks. -/
theorem Sound.can_iff (h : Sound reg contracts args deps identity rule) :
    can (reg.permissionsForRole identity.role) args.resource args.operation = true ↔
      roleAtLeast identity.role rule.minRole = true :=
  can_permissionsForRole h.declared

/-- A call that is sound but for its plan is refused by `prepare` with the plan gate's own
failure. -/
theorem Sound.refused_of_plan (h : Sound reg contracts args deps identity rule)
    (hrole : roleAtLeast identity.role rule.minRole = true) {failure : GatewayFailure}
    (hplan : planGate reg args.resource rule deps.entitlements = some failure) :
    prepare crypto secret reg contracts args deps = .error (.failed failure) := by
  have horg : ¬ identity.orgId.length = 0 := Nat.one_le_iff_ne_zero.mp h.orgId
  have hcan := h.can_iff.mpr hrole
  simp only [prepare, h.declared, h.identified, horg, hrole, hcan, h.unescalated, h.withinRate,
    hplan, not_true_eq_false, if_false]

/-- And where both the role and the plan gate let it through, an envelope is signed. -/
theorem Sound.signed (h : Sound reg contracts args deps identity rule)
    (hrole : roleAtLeast identity.role rule.minRole = true)
    (hplan : planGate reg args.resource rule deps.entitlements = none) :
    ∃ e, prepare crypto secret reg contracts args deps = .ok e := by
  obtain ⟨payload, hpayload, hsendable⟩ := h.sendable
  obtain ⟨signature, hsign⟩ := @sign_of_sendable crypto secret
    (metaFor reg args identity rule deps) payload hsendable
  exact ⟨_, prepare_of_passes h.declared h.identified h.orgId hrole h.unescalated h.withinRate hplan
    hpayload hsign⟩

/-- `<Gate>` before a viewer who holds the role, by the gateway's decision. -/
theorem gate_of_role {entitlements : Entitlements} {resource : ResourceKey} {operation : Operation}
    (hasFallback : Bool)
    (hcan : can (reg.permissionsForRole identity.role) resource operation = true) :
    gate reg (reg.viewerFor identity entitlements) resource operation hasFallback =
      match reg.checkResourceAccess resource entitlements 1 with
      | .allowed .. => .children
      | .denied _ _ _ nextPlan text => fallbackOf hasFallback text nextPlan := by
  rw [gate, accessGate, usePermission, Registry.viewerFor, if_pos hcan, featureGate, priceGate,
    useResourceDecision, Option.getD_none]
  cases reg.checkResourceAccess resource entitlements 1 with
  | allowed => rfl
  | denied reason => cases reason <;> rfl

/-- Without the permission a control is not rendered at all, be there a fallback for it or
not. -/
theorem gate_of_no_role {entitlements : Entitlements} {resource : ResourceKey}
    {operation : Operation} (hasFallback : Bool)
    (hcan : can (reg.permissionsForRole identity.role) resource operation = false) :
    gate reg (reg.viewerFor identity entitlements) resource operation hasFallback = .nothing := by
  rw [gate, accessGate, usePermission, Registry.viewerFor, hcan]
  rfl

/-- **The mirror.**  On one snapshot of entitlements a gate announces what the
gateway will answer.  For an operation that consumes it is exact: hidden where
the role is refused, an upgrade in the gateway's own words where the plan is,
its children where the call is signed.  For one that does not consume it is
exact about the role, and never offers what is refused. -/
theorem gate_mirrors_dispatch (crypto : Crypto) (secret : JSString) (hasFallback : Bool)
    (h : Sound reg contracts args deps identity rule) :
    let node := gate reg (reg.viewerFor identity deps.entitlements) args.resource args.operation
      hasFallback
    let outcome := prepare crypto secret reg contracts args deps
    (rule.consumes = true → Announces node args outcome) ∧
    (rule.consumes = false → (node = .nothing ∧ Announces .nothing args outcome) ∨
      (node ≠ .nothing ∧ Announces .children args outcome)) := by
  intro node outcome
  by_cases hrole : roleAtLeast identity.role rule.minRole = true
  · have hnode : node = _ := gate_of_role hasFallback (h.can_iff.mpr hrole)
    constructor
    · intro hconsumes
      rw [hnode]
      cases hdecision : reg.checkResourceAccess args.resource deps.entitlements 1 with
      | allowed limit remaining =>
          refine h.signed hrole ?_
          simp only [planGate, hconsumes, if_true, hdecision]
      | denied reason limit used nextPlan text =>
          have hrefused := @Sound.refused_of_plan crypto secret _ _ _ _ _ _ h hrole
            (.upgradeRequired text (.gate (.denied reason limit used nextPlan text))) (by
              simp only [planGate, hconsumes, if_true, hdecision])
          cases hasFallback with
          | false => exact ⟨reason, limit, used, hrefused⟩
          | true => exact ⟨_, _, hrefused⟩
    · intro hconsumes
      right
      refine ⟨?_, h.signed hrole (by simp [planGate, hconsumes])⟩
      rw [hnode]
      cases reg.checkResourceAccess args.resource deps.entitlements 1 with
      | allowed => simp
      | denied => cases hasFallback <;> simp [fallbackOf]
  · rw [Bool.not_eq_true] at hrole
    have hcan : can (reg.permissionsForRole identity.role) args.resource args.operation = false := by
      rw [Bool.eq_false_iff, ne_eq, h.can_iff, hrole]
      decide
    have hnode : node = .nothing := gate_of_no_role hasFallback hcan
    rw [hnode]
    exact ⟨fun _ => h.refused_of_role hrole, fun _ => .inl ⟨rfl, h.refused_of_role hrole⟩⟩

/-! ## The invitation form -/

/-- What `MemberList` keeps of its form. -/
structure InviteForm where
  email : JSString
  role : OrgRole

/-- `useState("")` and `useState(normalizeRole(null))`. -/
def InviteForm.empty : InviteForm := { email := [], role := lowestRole }

/-- What a person does to it. -/
inductive InviteEdit
  | typed (email : JSString)
  | picked (value : JSString)

def InviteForm.edit (form : InviteForm) : InviteEdit → InviteForm
  | .typed email => { form with email }
  | .picked value => { form with role := normalizeRole value }

/-- The values the form's `<select>` offers a viewer. -/
def grantableRoles (viewer : OrgRole) : List JSString := (assignableRoles viewer).map OrgRole.name

/-- The edits the rendered form allows: any text, and the roles it offers. -/
def InviteEdit.Offered (viewer : OrgRole) : InviteEdit → Prop
  | .typed _ => True
  | .picked value => value ∈ grantableRoles viewer

/-- `invite.mutate({ email: email.trim(), role })`. -/
def InviteForm.input (form : InviteForm) : Value :=
  .object [(str "email", .string (trim form.email)), (str "role", .string form.role.name)]

/-- Everybody may assign the lowest role, which is the one the form starts with. -/
theorem lowestRole_assignable (viewer : OrgRole) : lowestRole ∈ assignableRoles viewer := by
  cases viewer <;> decide

/-- One edit that the form offers leaves it with a role its viewer may grant. -/
theorem InviteForm.edit_assignable {viewer : OrgRole} {form : InviteForm} {edit : InviteEdit}
    (hform : form.role ∈ assignableRoles viewer) (hedit : edit.Offered viewer) :
    (form.edit edit).role ∈ assignableRoles viewer := by
  cases edit with
  | typed email => exact hform
  | picked value =>
      obtain ⟨role, hrole, rfl⟩ := List.mem_map.mp hedit
      rw [InviteForm.edit, normalizeRole_name]
      exact hrole

/-- Whatever is typed and picked, the form's role stays one that was offered. -/
theorem InviteForm.edits_assignable {viewer : OrgRole} (edits : List InviteEdit) :
    ∀ form : InviteForm, form.role ∈ assignableRoles viewer →
      (∀ edit ∈ edits, edit.Offered viewer) →
      (edits.foldl InviteForm.edit form).role ∈ assignableRoles viewer := by
  induction edits with
  | nil => exact fun _ hform _ => hform
  | cons edit edits ih =>
      intro form hform hedits
      exact ih _ (form.edit_assignable hform (hedits edit List.mem_cons_self))
        fun other hother => hedits other (List.mem_cons_of_mem _ hother)

/-- The input a form submits names the form's role, so the check refuses it where the viewer
may not grant it. -/
theorem refusedRole_input (form : InviteForm) (viewer : OrgRole) :
    refusedRole form.input viewer = none ↔ form.role ∈ assignableRoles viewer := by
  have hnamed : namedRole form.input = some form.role.name := rfl
  rw [refusedRole, hnamed]
  dsimp only
  rw [ite_eq_left_iff]
  simp only [reduceCtorEq, imp_false, not_not, List.any_eq_true, beq_iff_eq]
  constructor
  · rintro ⟨role, hrole, hname⟩
    exact OrgRole.name_injective hname ▸ hrole
  · exact fun hrole => ⟨form.role, hrole, rfl⟩

/-- What the form submits is what its contract makes of it, when its address passes. -/
theorem invite_parse (formats : Formats) (form : InviteForm)
    (hemail : formats.isEmail (trim form.email) = true) :
    (contractFor formats (str "member") .create).input form.input = some form.input := by
  have hrole : form.role.name ∈ orgRoles.map OrgRole.name := by
    cases form.role <;> decide
  have hfields : parseFields [(str "email", .string formats.isEmail), (str "role", roleEnum)]
      [(str "email", .string (trim form.email)), (str "role", .string form.role.name)] =
        some [(str "email", .string (trim form.email)), (str "role", .string form.role.name)] := by
    refine parseFields_of_forall (.cons ⟨rfl, rfl, ?_⟩ (.cons ⟨rfl, rfl, ?_⟩ .nil))
    · rw [Schema.parse]
      exact if_pos hemail
    · rw [roleEnum, Schema.parse]
      exact if_pos hrole
  have hparse : (Schema.object [(str "email", .string formats.isEmail),
      (str "role", roleEnum)]).parse form.input = some form.input := by
    rw [Schema.parse, InviteForm.input, Value.ownMembers?, Option.bind_some, hfields]
    rfl
  exact hparse

/-- **What the form offers, the platform takes.**  A person who sees the
invitation form edits it as it allows, and submits an address the contract
accepts: on the same snapshot the gateway signs the call, with the form's own
input, and the service that owns it finds nothing to refuse in its authority. -/
theorem offered_invitation_accepted (crypto : Crypto) (secret : JSString) (formats : Formats)
    {args : DispatchArgs} (edits : List InviteEdit)
    (hresource : args.resource = str "member") (hoperation : args.operation = .create)
    (hinput : args.input = (edits.foldl InviteForm.edit .empty).input)
    (hdeclared : reg.ruleFor args.resource args.operation = some rule)
    (hidentified : deps.identity = some identity) (horg : 1 ≤ identity.orgId.length)
    (hrate : deps.verdict.ok = true) (hoffered : ∀ edit ∈ edits, edit.Offered identity.role)
    (hemail : formats.isEmail (trim (edits.foldl InviteForm.edit .empty).email) = true)
    (hshown : gate reg (reg.viewerFor identity deps.entitlements) args.resource args.operation
      false = .children) :
    ∃ e, prepare crypto secret reg (contractFor formats) args deps = .ok e ∧
      e.payload = args.input ∧ reassertAuthority e.requestMeta e.payload = none := by
  set form := edits.foldl InviteForm.edit .empty
  have hgranted : form.role ∈ assignableRoles identity.role :=
    InviteForm.edits_assignable edits .empty (lowestRole_assignable identity.role) hoffered
  have hunescalated : refusedRole args.input identity.role = none := by
    rw [hinput]
    exact (refusedRole_input form identity.role).mpr hgranted
  have hparse : (contractFor formats args.resource args.operation).input args.input =
      some args.input := by
    rw [hresource, hoperation, hinput]
    exact invite_parse formats form hemail
  have hcanonical : (canonicalise args.input).isSome = true := by
    rw [hinput, show form.input = (Json.object [(str "email", .string (trim form.email)),
      (str "role", .string form.role.name)]).toValue from rfl, canonicalise_toValue]
    rfl
  have hsound : Sound reg (contractFor formats) args deps identity rule :=
    ⟨hdeclared, hidentified, horg, hunescalated, hrate, ⟨_, hparse, hcanonical⟩⟩
  have hrole : roleAtLeast identity.role rule.minRole = true := by
    rw [← hsound.can_iff]
    by_contra hcan
    rw [gate_of_no_role false (Bool.eq_false_iff.mpr hcan)] at hshown
    cases hshown
  rw [gate_of_role false (hsound.can_iff.mpr hrole)] at hshown
  have hplan : planGate reg args.resource rule deps.entitlements = none := by
    unfold planGate
    split
    · cases haccess : reg.checkResourceAccess args.resource deps.entitlements 1 with
      | allowed limit remaining => rfl
      | denied =>
          rw [haccess] at hshown
          cases hshown
    · rfl
  obtain ⟨e, he⟩ := @Sound.signed crypto secret _ _ _ _ _ _ hsound hrole hplan
  obtain ⟨identity', rule', hprepared⟩ := prepared_of_prepare he
  obtain rfl := Option.some.inj (hidentified.symm.trans hprepared.identified)
  have hpayload : e.payload = args.input := Option.some.inj (hprepared.payload.symm.trans hparse)
  refine ⟨e, he, hpayload, reassertAuthority_eq_none.mpr ?_⟩
  rw [hpayload, hprepared.requestMeta]
  exact ⟨hprepared.permitted, hunescalated⟩

/-! ## What is shown of a refusal -/

/-- What `<Denial>` renders. -/
inductive Shown
  | nothing
  /-- The plain message, `role="alert"`. -/
  | alert (text : JSString)
  /-- A wait, `role="status"`. -/
  | status (text : JSString)
  /-- `<UpgradePrompt>` of the local decision, with the plan it leads to. -/
  | prompt (text : JSString) (nextPlan : Option PlanKey)
  /-- The gateway's upgrade copy, as a link where billing has a page. -/
  | upsell (text : JSString) (href : Option JSString)

def Shown.text : Shown → JSString
  | .nothing => []
  | .alert text => text
  | .status text => text
  | .prompt text _ => text
  | .upsell text _ => text

/-- Is an upgrade on offer? -/
def Shown.sells : Shown → Bool
  | .prompt .. => true
  | .upsell .. => true
  | _ => false

namespace Registry

variable (reg : Registry)

/-- `BILLING_HREF`. -/
def billingHref : Option JSString :=
  (reg.navItems.find? (·.resource == str "billing")).map (·.entry.href)

/-- The copy a resource has for the plan after a plan. -/
def upgradeCopy (resource : ResourceKey) (plan : PlanKey) : JSString :=
  ((reg.resource? resource).map (·.upgrade ((reg.nextPlanAfter plan).map (·.2.label)))).getD []

end Registry

/-- A member that is a string. -/
def textOf (members : Members) (key : JSString) : JSString :=
  match members.lookup key with
  | some (.string s) => s
  | _ => []

/-- `<Denial error resource>` before a viewer with these entitlements. -/
def showDenial (reg : Registry) (viewer : Entitlements) (error : Option DenialError)
    (resource : Option ResourceKey) : Shown :=
  let decision := reg.checkResourceAccess (resource.getD (str "billing")) viewer 1
  match error with
  | none => .nothing
  | some error =>
    match denialOf error with
    | none => .alert error.message
    | some failure =>
      let message := textOf failure (str "message")
      if textOf failure (str "code") = ErrorCode.upgradeRequired.name then
        match resource, decision with
        | some _, .denied _ _ _ nextPlan upgradeMessage => .prompt upgradeMessage nextPlan
        | _, _ => .upsell message reg.billingHref
      else if textOf failure (str "code") = ErrorCode.rateLimited.name then
        match failure.lookup (str "retryAfterSeconds") with
        | some (.number (.finite x)) =>
          .status (str "Too many requests. Try again in " ++ numberText x ++ str "s.")
        | _ => .status (str "Too many requests. Try again shortly.")
      else .alert message

/-- How a failure is shown: an upgrade where the plan refused and only there, in
the failure's words or in those of the viewer's own denial; a wait with the
limiter's seconds; and everything else as the message it came with. -/
structure ShownAs (reg : Registry) (viewer : Entitlements) (resource : Option ResourceKey)
    (failure : GatewayFailure) (shown : Shown) : Prop where
  sells : shown.sells = true ↔ failure.code = .upgradeRequired
  copy : failure.code = .upgradeRequired → shown.text = failure.message ∨
    ∃ r, resource = some r ∧ shown.text = reg.upgradeCopy r viewer.plan
  wait : ∀ message seconds, failure = .rateLimited message seconds →
    shown = .status (str "Too many requests. Try again in " ++ numberText (.ofInt seconds) ++ str "s.")
  alert : failure.code ≠ .upgradeRequired → failure.code ≠ .rateLimited →
    shown = .alert failure.message

/-- A denial's words are the resource's copy for the plan that was asked. -/
theorem upgradeMessage_eq {resource : ResourceKey} {entitlements : Entitlements} {requested : ℤ}
    {reason : DenialReason} {limit : Limit} {used : ℤ} {nextPlan : Option PlanKey} {text : JSString}
    (h : reg.checkResourceAccess resource entitlements requested =
      .denied reason limit used nextPlan text) : text = reg.upgradeCopy resource entitlements.plan := by
  unfold Registry.checkResourceAccess at h
  dsimp only at h
  split at h
  · exact (AccessDecision.denied.inj h).2.2.2.2.symm
  · cases h
  · split at h
    · exact (AccessDecision.denied.inj h).2.2.2.2.symm
    · cases h

/-- A plan's refusal is shown as an upgrade: the viewer's own, or the gateway's. -/
theorem showDenial_upgrade {viewer : Entitlements} {resource : Option ResourceKey}
    {error : DenialError} {message : JSString} {decision : UpgradeDecision}
    (hdenial : denialOf error = some (GatewayFailure.upgradeRequired message decision).members) :
    ShownAs reg viewer resource (.upgradeRequired message decision)
      (showDenial reg viewer (some error) resource) := by
  have hmessage : textOf (GatewayFailure.upgradeRequired message decision).members
      (str "message") = message := rfl
  have hcode : textOf (GatewayFailure.upgradeRequired message decision).members (str "code") =
      ErrorCode.upgradeRequired.name := rfl
  have hnever : ∀ message' seconds, GatewayFailure.upgradeRequired message decision ≠
      .rateLimited message' seconds := by simp
  simp only [showDenial, hdenial, hmessage, hcode, if_true]
  split
  · rename_i r _ _ _ nextPlan text hdecision
    exact ⟨by simp [Shown.sells, GatewayFailure.code],
      fun _ => .inr ⟨r, rfl, upgradeMessage_eq hdecision⟩,
      fun _ _ h => absurd h (hnever _ _), fun h => absurd rfl h⟩
  · exact ⟨by simp [Shown.sells, GatewayFailure.code], fun _ => .inl rfl,
      fun _ _ h => absurd h (hnever _ _), fun h => absurd rfl h⟩

/-- Two failures spell the name of one code exactly where they have that code. -/
theorem code_name_iff {failure : GatewayFailure} {code : ErrorCode} :
    failure.code.name = code.name ↔ failure.code = code :=
  ⟨fun h => ErrorCode.name_injective h, fun h => by rw [h]⟩

/-- A failure that is neither an upgrade nor a wait is shown by its message alone. -/
theorem showDenial_alert {viewer : Entitlements} {resource : Option ResourceKey}
    {error : DenialError} {failure : GatewayFailure} (hdenial : denialOf error = some failure.members)
    (hupgrade : failure.code ≠ .upgradeRequired) (hrate : failure.code ≠ .rateLimited) :
    ShownAs reg viewer resource failure (showDenial reg viewer (some error) resource) := by
  have hmessage : textOf failure.members (str "message") = failure.message := rfl
  have hcode : textOf failure.members (str "code") = failure.code.name := rfl
  have halert : showDenial reg viewer (some error) resource = .alert failure.message := by
    simp only [showDenial, hdenial, hmessage, hcode, code_name_iff, hupgrade, hrate, if_false]
  rw [halert]
  refine ⟨by simp [Shown.sells, hupgrade], fun h => absurd h hupgrade, ?_, fun _ _ => rfl⟩
  rintro message seconds rfl
  exact absurd rfl hrate

/-- A failure that asks for a wait is shown with its message and the seconds to wait. -/
theorem showDenial_wait {viewer : Entitlements} {resource : Option ResourceKey}
    {error : DenialError} {message : JSString} {seconds : ℤ}
    (hdenial : denialOf error = some (GatewayFailure.rateLimited message seconds).members) :
    ShownAs reg viewer resource (.rateLimited message seconds)
      (showDenial reg viewer (some error) resource) := by
  have hcode : textOf (GatewayFailure.rateLimited message seconds).members (str "code") =
      ErrorCode.rateLimited.name := rfl
  have hname : ErrorCode.rateLimited.name ≠ ErrorCode.upgradeRequired.name := by decide
  have hupgrade : (GatewayFailure.rateLimited message seconds).code ≠ .upgradeRequired := by
    simp [GatewayFailure.code]
  have hseconds : (GatewayFailure.rateLimited message seconds).members.lookup
      (str "retryAfterSeconds") = some (.number (.finite (.ofInt seconds))) := rfl
  have hwait : showDenial reg viewer (some error) resource = .status
      (str "Too many requests. Try again in " ++ numberText (.ofInt seconds) ++ str "s.") := by
    simp only [showDenial, hdenial, hcode, hname, hseconds, if_false, if_true]
  rw [hwait]
  refine ⟨by simp [Shown.sells, hupgrade], fun h => absurd h hupgrade, ?_, fun _ h => absurd rfl h⟩
  rintro message' seconds' h
  obtain ⟨-, rfl⟩ := GatewayFailure.rateLimited.inj h
  rfl

/-- A failure that the browser parsed out of a denial is shown just as the failure itself
would be. -/
theorem showDenial_of_denialOf {viewer : Entitlements} {resource : Option ResourceKey}
    {error : DenialError} {failure : GatewayFailure} (hadmissible : Admissible failure)
    (hdenial : denialOf error = some failure.members) :
    ShownAs reg viewer resource failure (showDenial reg viewer (some error) resource) := by
  cases hadmissible with
  | gate => exact showDenial_upgrade hdenial
  | carried => exact showDenial_upgrade hdenial
  | rateLimited => exact showDenial_wait hdenial
  | permissionDenied =>
      exact showDenial_alert hdenial (by simp [GatewayFailure.code]) (by simp [GatewayFailure.code])
  | @coded code message hspecial =>
      have hupgrade : code ≠ .upgradeRequired := fun h => hspecial (by simp [h])
      have hrate : code ≠ .rateLimited := fun h => hspecial (by simp [h])
      exact showDenial_alert hdenial hupgrade hrate

/-- The gateway's own plan refusal is the resource's copy for the plan it saw. -/
theorem message_of_planGate {resource : ResourceKey} {entitlements : Entitlements}
    {failure : GatewayFailure} (h : planGate reg resource rule entitlements = some failure) :
    failure.message = reg.upgradeCopy resource entitlements.plan := by
  unfold planGate at h
  split at h
  · split at h
    · cases h
    · rename_i hdecision
      obtain rfl := Option.some.inj h
      exact upgradeMessage_eq hdecision
  · cases h

/-- What the plan gate says is its own: no service sent any of it. -/
theorem carried_of_planGate {resource : ResourceKey} {entitlements : Entitlements}
    {failure : GatewayFailure} (h : planGate reg resource rule entitlements = some failure) :
    failure.carried = none := by
  unfold planGate at h
  split at h
  · split at h
    · cases h
    · obtain rfl := Option.some.inj h
      rfl
  · cases h

/-- Only the plan gate asks for an upgrade before anything is sent. -/
theorem planGate_of_prepare {failure : GatewayFailure}
    (h : prepare crypto secret reg contracts args deps = .error (.failed failure))
    (hupgrade : failure.code = .upgradeRequired) :
    ∃ rule, planGate reg args.resource rule deps.entitlements = some failure := by
  unfold prepare at h
  split at h
  · cases h
  · rename_i rule hrule
    have hother : ∀ other : GatewayFailure, other.code ≠ .upgradeRequired →
        (Except.error (DispatchError.failed other) : Except DispatchError Envelope) ≠
          .error (.failed failure) := by
      rintro other hcode h
      obtain rfl := DispatchError.failed.inj (Except.error.inj h)
      exact hcode hupgrade
    split at h
    · exact absurd h (hother _ (by decide))
    · split at h
      · exact absurd h (hother _ (by decide))
      · split at h
        · exact absurd h (hother _ (by simp [GatewayFailure.code]))
        · split at h
          · exact absurd h (hother _ (by simp [GatewayFailure.code]))
          · split at h
            · exact absurd h (hother _ (by simp [GatewayFailure.code]))
            · split at h
              · exact absurd h (hother _ (by simp [GatewayFailure.code]))
              · split at h
                · rename_i failure' hplan
                  obtain rfl := DispatchError.failed.inj (Except.error.inj h)
                  exact ⟨rule, hplan⟩
                · split at h
                  · cases h
                  · dsimp only at h
                    split at h <;> cases h

/-- **What a person is told.**  Every failure of `dispatch` is shown as it is,
whatever entitlements the viewer's own mirror holds, unless a service sent data
along that superjson refuses.  And where the gateway
itself asks for an upgrade, beside the control of the resource that was called
or of none, the words are that resource's own copy for the plan of one of the
two snapshots that were asked. -/
theorem refusals_shown (crypto : Crypto) (secret : JSString) (reg : Registry)
    (contracts : ContractMap) {trpc : TRPC} (hdocumented : trpc.Documented) (viewer : Entitlements)
    (resource : Option ResourceKey) :
    (∀ failure, Fails crypto secret reg contracts failure → failure.Crosses trpc →
      ShownAs reg viewer resource failure
        (showDenial reg viewer (some (thrownToBrowser trpc (.gateway failure))) resource)) ∧
    ∀ args deps failure, prepare crypto secret reg contracts args deps = .error (.failed failure) →
      failure.code = .upgradeRequired → (∀ r, resource = some r → r = args.resource) →
      ∃ plan ∈ [viewer.plan, deps.entitlements.plan],
        (showDenial reg viewer (some (thrownToBrowser trpc (.gateway failure))) resource).text =
          reg.upgradeCopy args.resource plan := by
  have hshown : ∀ failure, Fails crypto secret reg contracts failure → failure.Crosses trpc →
      ShownAs reg viewer resource failure
        (showDenial reg viewer (some (thrownToBrowser trpc (.gateway failure))) resource) := by
    intro failure hfails hcrosses
    have hadmissible := admissible_of_fails hfails
    exact showDenial_of_denialOf hadmissible
      (denialOf_thrown hdocumented (isPlain_of_admissible hadmissible)
        (hcrosses.avoids_members hdocumented))
  refine ⟨hshown, fun args deps failure hprepare hupgrade hresource => ?_⟩
  obtain ⟨rule, hplan⟩ := planGate_of_prepare hprepare hupgrade
  have hcrosses : failure.Crosses trpc := by
    intro data hdata
    rw [carried_of_planGate hplan] at hdata
    cases hdata
  rcases (hshown failure (.refused hprepare) hcrosses).copy hupgrade with hcopy | ⟨r, hr, hcopy⟩
  · exact ⟨deps.entitlements.plan, by simp, by rw [hcopy, message_of_planGate hplan]⟩
  · exact ⟨viewer.plan, by simp, by rw [hcopy, hresource r hr]⟩

/-! ## An organisation at its limit -/

/-- The free plan, with both its projects in use. -/
def fullSnapshot : Entitlements :=
  { plan := str "free", usage := fun resource => if resource = str "project" then some 2 else none }

def fullAnswers : DepsAnswers := { removeAnswers with entitlements := fullSnapshot }

/-- `project.create`. -/
def thirdProject : DispatchArgs :=
  { requestId := str "request-1", resource := str "project", operation := .create,
    input := .object [(str "name", .string (str "Site")), (str "slug", .string (str "site"))] }

def fullCopy : JSString := upgradeCopy (str "project") (some (str "Pro"))

/-- The call that creates a third project passes every check of `dispatch` but the plan's.
-/
theorem thirdProject_sound : Sound registry (contractFor roughFormats) thirdProject fullAnswers remover
    (mutationRule .admin true 5000) where
  declared := rfl
  identified := rfl
  orgId := by decide
  unescalated := rfl
  withinRate := rfl
  sendable := ⟨_, rfl, rfl⟩

/-- At the limit of the plan the control becomes an upgrade prompt, with the copy and the
next plan. -/
theorem fullSnapshot_prompts : gate registry (registry.viewerFor remover fullSnapshot) (str "project")
    .create false = .prompt fullCopy (some (str "pro")) := by decide

/-- The page shows, for a third project, the same upgrade copy the gateway would answer
with. -/
theorem third_project_announced :
    gate registry (registry.viewerFor remover fullSnapshot) (str "project") .create false =
      .prompt fullCopy (some (str "pro")) ∧
    Announces (.prompt fullCopy (some (str "pro"))) thirdProject
      (prepare .transparent (str "secret") registry (contractFor roughFormats) thirdProject
        fullAnswers) := by
  have hmirror := gate_mirrors_dispatch .transparent (str "secret") false thirdProject_sound
  have hannounced := hmirror.1 rfl
  refine ⟨fullSnapshot_prompts, ?_⟩
  rw [← fullSnapshot_prompts]
  exact hannounced

/-- And who asks all the same is shown it, not an error. -/
theorem third_project_refusal_shown : ∃ failure,
    prepare .transparent (str "secret") registry (contractFor roughFormats) thirdProject fullAnswers =
      .error (.failed failure) ∧
    ShownAs registry fullSnapshot (some (str "project")) failure
      (showDenial registry fullSnapshot (some (thrownToBrowser plainTRPC (.gateway failure)))
        (some (str "project"))) := by
  obtain ⟨failure, hplan⟩ : ∃ failure, planGate registry (str "project")
      (mutationRule .admin true 5000) fullSnapshot = some failure := ⟨_, rfl⟩
  have hprepare := @Sound.refused_of_plan .transparent (str "secret") _ _ _ _ _ _ thirdProject_sound
    rfl failure hplan
  refine ⟨failure, hprepare, ?_⟩
  have hshown := refusals_shown .transparent (str "secret") registry (contractFor roughFormats)
    plainTRPC_documented fullSnapshot (some (str "project"))
  exact hshown.1 failure (.refused hprepare) fun data hdata => by
    rw [carried_of_planGate hplan] at hdata
    cases hdata

/-- An admin invites an admin. -/
def adminInvites : List InviteEdit :=
  [.typed (str " bo@acme.io"), .picked (str "admin")]

def adminInvite : DispatchArgs :=
  { requestId := str "request-1", resource := str "member", operation := .create,
    input := (adminInvites.foldl InviteForm.edit .empty).input }

/-- The invitation an admin was offered is signed, and its authority holds at
the service. -/
theorem admin_invitation_accepted : ∃ e,
    prepare .transparent (str "secret") registry (contractFor roughFormats) adminInvite
      removeAnswers = .ok e ∧
    e.payload = adminInvite.input ∧ reassertAuthority e.requestMeta e.payload = none := by
  have hoffered : ∀ edit ∈ adminInvites, edit.Offered remover.role := by
    simp only [adminInvites, List.forall_mem_cons]
    exact ⟨trivial, (by decide : str "admin" ∈ grantableRoles .admin), by simp⟩
  exact @offered_invitation_accepted registry removeAnswers remover
    { mutationRule .admin true 8000 with transport := .command } .transparent (str "secret")
    roughFormats adminInvite adminInvites rfl rfl rfl rfl rfl (by decide) rfl hoffered (by decide)
    (by decide)

end Guardrail
