import GuardrailPlatform.Registry

/-!
# The registry the repository ships

Plans and resources as `registry.ts` declares them.
-/

namespace Guardrail

open Js

def plans : List (PlanKey × PlanDefinition) :=
  [(str "free", { label := str "Free", autumnProductId := str "free", rank := 0 }),
    (str "pro", { label := str "Pro", autumnProductId := str "pro", rank := 1 }),
    (str "scale", { label := str "Scale", autumnProductId := str "scale", rank := 2 })]

/-- `DEFAULT_PLAN`. -/
def defaultPlan : PlanKey := str "free"

/-- An rpc that changes nothing. -/
def queryRule (minRole : OrgRole) (timeoutMs : ℤ) : OperationRule :=
  { minRole, kind := .query, transport := .rpc, consumes := false, audit := false, timeoutMs }

/-- An audited rpc that changes something. -/
def mutationRule (minRole : OrgRole) (consumes : Bool) (timeoutMs : ℤ) : OperationRule :=
  { minRole, kind := .mutation, transport := .rpc, consumes, audit := true, timeoutMs }

def limitsOf (free pro scale : Limit) : List (PlanKey × Limit) :=
  [(str "free", free), (str "pro", pro), (str "scale", scale)]

def upgradeCopy (noun : JSString) (nextPlanLabel : Option JSString) : JSString :=
  match nextPlanLabel with
  | none =>
    str "You have used every " ++ noun ++
      str " on the highest plan. Talk to us about a custom limit."
  | some label =>
    str "You have used every " ++ noun ++ str " on your plan. " ++ label ++
      str " raises the limit."

def organizationResource : ResourceDefinition where
  label := str "Organisations"
  owner := .identity
  featureId := some (str "organizations")
  operations
    | .read => some (queryRule .member 3000)
    | .create => some (mutationRule .owner true 5000)
    | .update => some (mutationRule .admin false 5000)
    | .delete => some (mutationRule .owner false 5000)
    | .manage => none
  limits := limitsOf .notIncluded (.atMost 3) .unlimited
  rateLimit := { max := 10, windowSeconds := 60 }
  nav := none
  upgrade
    | none => str
        "You have used every organisation on the highest plan. Talk to us about a custom limit."
    | some next =>
      str "Your plan includes one organisation. " ++ next ++ str " lets you run several."

def membershipResource : ResourceDefinition where
  label := str "Membership"
  owner := .identity
  featureId := none
  operations
    | .delete => some (mutationRule .member false 5000)
    | _ => none
  limits := limitsOf .unlimited .unlimited .unlimited
  rateLimit := { max := 5, windowSeconds := 60 }
  nav := none
  upgrade _ := str "Leaving an organisation is available on every plan."

def projectResource : ResourceDefinition where
  label := str "Projects"
  owner := .projects
  featureId := some (str "projects")
  operations
    | .read => some (queryRule .member 3000)
    | .create => some (mutationRule .admin true 5000)
    | .update => some (mutationRule .admin false 5000)
    | .delete => some (mutationRule .admin false 5000)
    | .manage => none
  limits := limitsOf (.atMost 2) (.atMost 25) .unlimited
  rateLimit := { max := 60, windowSeconds := 60 }
  nav := some { href := str "/projects", label := str "Projects", order := 1 }
  upgrade := upgradeCopy (str "project")

def memberResource : ResourceDefinition where
  label := str "Team"
  owner := .identity
  featureId := some (str "seats")
  operations
    | .read => some (queryRule .member 3000)
    -- a command: sending an invitation involves an email provider that can be slow
    | .create => some { mutationRule .admin true 8000 with transport := .command }
    | .update => some (mutationRule .owner false 5000)
    | .delete => some (mutationRule .owner false 5000)
    | .manage => none
  limits := limitsOf (.atMost 2) (.atMost 10) .unlimited
  rateLimit := { max := 30, windowSeconds := 60 }
  nav := some { href := str "/team", label := str "Team", order := 2 }
  upgrade := upgradeCopy (str "seat")

def invitationResource : ResourceDefinition where
  label := str "Invitations"
  owner := .identity
  featureId := none
  operations
    | .read => some (queryRule .admin 3000)
    | .delete => some (mutationRule .admin false 5000)
    | _ => none
  limits := limitsOf (.atMost 5) .unlimited .unlimited
  rateLimit := { max := 10, windowSeconds := 60 }
  nav := none
  upgrade := upgradeCopy (str "invitation")

def billingResource : ResourceDefinition where
  label := str "Billing"
  owner := .billing
  featureId := none
  operations
    | .read => some (queryRule .admin 4000)
    | .manage => some (mutationRule .owner false 8000)
    | _ => none
  limits := limitsOf .unlimited .unlimited .unlimited
  rateLimit := { max := 20, windowSeconds := 60 }
  nav := some { href := str "/billing", label := str "Billing", order := 3 }
  upgrade _ := str "Billing is available on every plan."

def auditLogResource : ResourceDefinition where
  label := str "Audit log"
  owner := .audit
  featureId := none
  operations
    | .read => some (queryRule .admin 4000)
    | _ => none
  limits := limitsOf .notIncluded (.atMost 90) .unlimited
  rateLimit := { max := 30, windowSeconds := 60 }
  nav := some { href := str "/audit", label := str "Audit log", order := 4 }
  upgrade
    | none => str "Audit retention is already unlimited."
    | some next =>
      str "Audit history is not included in your plan. " ++ next ++ str " keeps it."

/-- The shipped declaration. -/
def registry : Registry where
  plans := plans
  defaultPlan := defaultPlan
  resources :=
    [(str "organization", organizationResource), (str "membership", membershipResource),
      (str "project", projectResource), (str "member", memberResource),
      (str "invitation", invitationResource), (str "billing", billingResource),
      (str "auditLog", auditLogResource)]
  plans_nodup := by decide
  resources_nodup := by decide
  default_declared := by decide

theorem registry_timeouts_positive (resource : ResourceKey) (operation : Operation)
    (rule : OperationRule) (h : registry.ruleFor resource operation = some rule) :
    0 < rule.timeoutMs := by
  have hall : (registry.resourceKeys.all fun resource => operations.all fun operation =>
      (registry.ruleFor resource operation).all fun rule => decide (0 < rule.timeoutMs)) = true := by
    decide
  exact of_decide_eq_true (Registry.forall_rules hall h)

example : registry.maxTimeoutMs = 8000 := by decide

example : registry.routes.length = 18 := by decide

end Guardrail
