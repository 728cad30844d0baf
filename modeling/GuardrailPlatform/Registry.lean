import GuardrailPlatform.JsonOrder

/-!
# The registry and what is derived from it

A registry declares plans and resources; everything else in the platform is
computed from it.  The vocabulary (operations, roles, services) is fixed, the
declaration is not: every result below holds for any registry, and
`RegistryData` gives the one the repository ships.

A registry is written as an object literal, so its keys are distinct; the
structure carries that, and the default plan's being declared.
-/

namespace Guardrail

open Js

/-! ## Vocabulary -/

/-- What can be done to a resource. -/
inductive Operation
  | create
  | read
  | update
  | delete
  | manage
deriving DecidableEq

def Operation.name : Operation → JSString
  | .create => str "create"
  | .read => str "read"
  | .update => str "update"
  | .delete => str "delete"
  | .manage => str "manage"

def operations : List Operation := [.create, .read, .update, .delete, .manage]

/-- The roles a member of an organisation can hold. -/
inductive OrgRole
  | member
  | admin
  | owner
deriving DecidableEq

def OrgRole.name : OrgRole → JSString
  | .member => str "member"
  | .admin => str "admin"
  | .owner => str "owner"

def orgRoles : List OrgRole := [.member, .admin, .owner]

/-- The deployable units. -/
inductive ServiceName
  | projects
  | identity
  | billing
  | audit
deriving DecidableEq

def ServiceName.name : ServiceName → JSString
  | .projects => str "projects"
  | .identity => str "identity"
  | .billing => str "billing"
  | .audit => str "audit"

inductive Kind
  | query
  | mutation
deriving DecidableEq

/-- `rpc`: the caller waits.  `command`: durable, executed later. -/
inductive Transport
  | rpc
  | command
deriving DecidableEq

/-- A plan's allowance of a resource. -/
inductive Limit
  | notIncluded
  | unlimited
  | atMost (n : ℤ)
deriving DecidableEq

/-- Every operation is in the list, so a search through it misses none. -/
theorem mem_operations (o : Operation) : o ∈ operations := by cases o <;> decide

theorem Operation.name_injective : Function.Injective Operation.name := by
  intro a b h
  cases a <;> cases b <;> first | rfl | exact absurd h (by decide)

theorem OrgRole.name_injective : Function.Injective OrgRole.name := by
  intro a b h
  cases a <;> cases b <;> first | rfl | exact absurd h (by decide)

/-! ## Declarations -/

abbrev PlanKey := JSString

abbrev ResourceKey := JSString

structure PlanDefinition where
  label : JSString
  autumnProductId : JSString
  rank : ℤ

structure OperationRule where
  minRole : OrgRole
  kind : Kind
  transport : Transport
  consumes : Bool
  audit : Bool
  timeoutMs : ℤ

structure NavEntry where
  href : JSString
  label : JSString
  order : ℤ

structure RateLimit where
  max : ℤ
  windowSeconds : ℤ

structure ResourceDefinition where
  label : JSString
  owner : ServiceName
  featureId : Option JSString
  operations : Operation → Option OperationRule
  limits : List (PlanKey × Limit)
  rateLimit : RateLimit
  nav : Option NavEntry
  upgrade : Option JSString → JSString

/-- A registry declaration. -/
structure Registry where
  plans : List (PlanKey × PlanDefinition)
  defaultPlan : PlanKey
  resources : List (ResourceKey × ResourceDefinition)
  plans_nodup : (plans.map Prod.fst).Nodup
  resources_nodup : (resources.map Prod.fst).Nodup
  default_declared : defaultPlan ∈ plans.map Prod.fst

namespace Registry

variable (reg : Registry)

/-! ## Keys and guards -/

def planKeys : List PlanKey := reg.plans.map Prod.fst

def resourceKeys : List ResourceKey := reg.resources.map Prod.fst

def isResourceKey (value : JSString) : Bool := reg.resourceKeys.any (· == value)

def isPlanKey (value : JSString) : Bool := reg.planKeys.any (· == value)

/-- `RESOURCES[resource]`. -/
def resource? (resource : ResourceKey) : Option ResourceDefinition := reg.resources.lookup resource

/-- The declared rule of an operation.  `none` is the throw for an undeclared one. -/
def ruleFor (resource : ResourceKey) (operation : Operation) : Option OperationRule :=
  (reg.resource? resource).bind (·.operations operation)

def operationsOf (resource : ResourceKey) : List Operation :=
  operations.filter (fun operation => (reg.ruleFor resource operation).isSome)

/-- The owner of a declared resource. -/
def ownerOf (resource : ResourceKey) : Option ServiceName :=
  (reg.resource? resource).map (·.owner)

end Registry

/-! ## Permissions -/

def toPermission (resource : ResourceKey) (operation : Operation) : JSString :=
  resource ++ str ":" ++ operation.name

def roleRank : OrgRole → ℕ
  | .member => 1
  | .admin => 2
  | .owner => 3

/-- `ROLES_ASCENDING`: the roles, stably sorted by rank. -/
def rolesAscending : List OrgRole := orgRoles.insertionSort (fun a b => roleRank a ≤ roleRank b)

def lowestRole : OrgRole :=
  rolesAscending.foldl (fun lowest role => if roleRank role < roleRank lowest then role else lowest)
    .member

def highestRole : OrgRole :=
  rolesAscending.foldl
    (fun highest role => if roleRank role > roleRank highest then role else highest) .member

def roleAtLeast (actual required : OrgRole) : Bool := decide (roleRank actual ≥ roleRank required)

/-- Every role an actor may hand out. -/
def assignableRoles (actor : OrgRole) : List OrgRole :=
  rolesAscending.filter (fun role => roleAtLeast actor role)

example : highestRole = .owner := by decide

example : lowestRole = .member := by decide

namespace Registry

variable (reg : Registry)

/-- `PERMISSIONS_BY_ROLE[role]`. -/
def permissionsForRole (role : OrgRole) : List JSString :=
  reg.resourceKeys.flatMap fun resource =>
    ((reg.operationsOf resource).filter fun operation =>
      (reg.ruleFor resource operation).any (fun rule => roleAtLeast role rule.minRole)).map
        (toPermission resource)

end Registry

/-- Does the held list contain the permission? -/
def can (held : List JSString) (resource : ResourceKey) (operation : Operation) : Bool :=
  held.any (· == toPermission resource operation)

/-! ## Role columns -/

/-- Code units `String.prototype.trim` removes. -/
def isTrimmed (u : UInt16) : Bool :=
  u ∈ [9, 10, 11, 12, 13, 32, 160, 0x1680, 0x2028, 0x2029, 0x202F, 0x205F, 0x3000, 0xFEFF] ||
    (0x2000 ≤ u.toNat && u.toNat ≤ 0x200A)

def trim (s : JSString) : JSString := ((s.dropWhile isTrimmed).reverse.dropWhile isTrimmed).reverse

/-- The highest declared role a comma-separated column claims. -/
def normalizeRole (value : JSString) : OrgRole :=
  (value.splitOn 44).foldl (fun best claimed =>
    match orgRoles.find? (fun role => role.name == trim claimed) with
    | some known => if roleRank known > roleRank best then known else best
    | none => best) lowestRole

example : normalizeRole (str "admin, owner") = .owner := by decide

example : normalizeRole (str "root") = .member := by decide

/-! ## Entitlements -/

/-- Plan and usage of an organisation. -/
structure Entitlements where
  plan : PlanKey
  usage : ResourceKey → Option ℤ

inductive DenialReason
  | notInPlan
  | limitReached
deriving DecidableEq

/-- The plan gate's answer. -/
inductive AccessDecision
  | allowed (limit : Limit) (remaining : Option ℤ)
  | denied (reason : DenialReason) (limit : Limit) (used : ℤ) (nextPlan : Option PlanKey)
      (upgradeMessage : JSString)

namespace Registry

variable (reg : Registry)

/-- What the gateway assumes when billing says nothing. -/
def emptyEntitlements : Entitlements := ⟨reg.defaultPlan, fun _ => none⟩

def limitFor (resource : ResourceKey) (plan : PlanKey) : Limit :=
  ((reg.resource? resource).bind (·.limits.lookup plan)).getD .notIncluded

/-- `PLANS_ASCENDING`: the plan keys, stably sorted by rank. -/
def plansAscending : List (PlanKey × PlanDefinition) :=
  reg.plans.insertionSort (fun a b => a.2.rank ≤ b.2.rank)

def nextPlanAfter (plan : PlanKey) : Option (PlanKey × PlanDefinition) :=
  ((reg.plansAscending.dropWhile (fun p => p.1 != plan)).drop 1).head?

/-- The single plan gate.  Callers ask for one unit unless they say otherwise. -/
def checkResourceAccess (resource : ResourceKey) (entitlements : Entitlements)
    (requested : ℤ) : AccessDecision :=
  let limit := reg.limitFor resource entitlements.plan
  let used := (entitlements.usage resource).getD 0
  let nextPlan := reg.nextPlanAfter entitlements.plan
  let upgradeMessage :=
    ((reg.resource? resource).map (·.upgrade (nextPlan.map (·.2.label)))).getD []
  match limit with
  | .notIncluded => .denied .notInPlan limit used (nextPlan.map Prod.fst) upgradeMessage
  | .unlimited => .allowed limit none
  | .atMost n =>
    if used + requested > n then
      .denied .limitReached limit used (nextPlan.map Prod.fst) upgradeMessage
    else .allowed limit (some (max 0 (n - used)))

def usageLabel (resource : ResourceKey) (entitlements : Entitlements) : JSString :=
  let used := numberText (.ofInt ((entitlements.usage resource).getD 0))
  match reg.limitFor resource entitlements.plan with
  | .notIncluded => str "Not included"
  | .unlimited => used ++ str " used"
  | .atMost n => used ++ str " of " ++ numberText (.ofInt n)

end Registry

/-! ## Subjects and routes -/

def rpcSubject (resource : ResourceKey) (operation : Operation) : JSString :=
  str "rpc." ++ resource ++ str "." ++ operation.name

def commandSubject (resource : ResourceKey) (operation : Operation) : JSString :=
  str "cmd." ++ resource ++ str "." ++ operation.name

def eventSubject (resource : ResourceKey) (operation : Operation) : JSString :=
  str "evt." ++ resource ++ str "." ++ operation.name

/-- A subject the platform may use, and who answers it. -/
structure SubjectRoute where
  resource : ResourceKey
  operation : Operation
  subject : JSString
  transport : Transport
  owner : ServiceName
  audit : Bool
  event : Option JSString

namespace Registry

variable (reg : Registry)

/-- The route of one declared operation. -/
def routeOf (resource : ResourceKey) (owner : ServiceName) (operation : Operation)
    (rule : OperationRule) : SubjectRoute where
  resource := resource
  operation := operation
  transport := rule.transport
  owner := owner
  audit := rule.audit
  event := if rule.audit then some (eventSubject resource operation) else none
  subject :=
    match rule.transport with
    | .rpc => rpcSubject resource operation
    | .command => commandSubject resource operation

/-- `ROUTES`: every operation of every resource, in declaration order. -/
def routes : List SubjectRoute :=
  reg.resources.flatMap fun entry =>
    operations.filterMap fun operation =>
      (reg.ruleFor entry.1 operation).map (routeOf entry.1 entry.2.owner operation)

/-- `MAX_TIMEOUT_MS`: the longest budget any declared operation asks for. -/
def maxTimeoutMs : ℤ :=
  (reg.resourceKeys.flatMap fun resource =>
    operations.filterMap fun operation =>
      (reg.ruleFor resource operation).map (·.timeoutMs)).foldl max 0

/-- `ROUTES.find(...)` on a resource and an operation. -/
def findRoute (resource : ResourceKey) (operation : Operation) : Option SubjectRoute :=
  reg.routes.find? (fun r => r.resource == resource && r.operation == operation)

/-! ## What the derived views contain -/

variable {reg}

/-- Looking a resource up gives the one definition that the registry has for it. -/
theorem resource?_eq_some {resource : ResourceKey} {d : ResourceDefinition} :
    reg.resource? resource = some d ↔ (resource, d) ∈ reg.resources :=
  lookup_eq_some_iff_mem reg.resources_nodup

/-- The operations of a resource are those it has a rule for. -/
theorem mem_operationsOf {resource : ResourceKey} {operation : Operation} :
    operation ∈ reg.operationsOf resource ↔ ∃ rule, reg.ruleFor resource operation = some rule := by
  simp [operationsOf, mem_operations, Option.isSome_iff_exists]

/-- An operation that has a rule belongs to a resource that the registry declares. -/
theorem resource?_of_ruleFor {resource : ResourceKey} {operation : Operation}
    {rule : OperationRule} (h : reg.ruleFor resource operation = some rule) :
    ∃ d, reg.resource? resource = some d := by
  obtain ⟨d, hd, -⟩ := Option.bind_eq_some_iff.mp h
  exact ⟨d, hd⟩

/-- A property that is checked for all declared rules holds of any rule that is found. -/
theorem forall_rules {P : OperationRule → Bool}
    (h : (reg.resourceKeys.all fun resource => operations.all fun operation =>
      (reg.ruleFor resource operation).all P) = true) {resource : ResourceKey}
    {operation : Operation} {rule : OperationRule}
    (hrule : reg.ruleFor resource operation = some rule) : P rule = true := by
  obtain ⟨d, hd⟩ := resource?_of_ruleFor hrule
  have hkey : resource ∈ reg.resourceKeys :=
    List.mem_map.mpr ⟨_, resource?_eq_some.mp hd, rfl⟩
  have hrules := List.all_eq_true.mp (List.all_eq_true.mp h resource hkey) operation
    (mem_operations operation)
  rwa [hrule] at hrules

/-- A string is a resource key exactly where the registry declares it. -/
theorem isResourceKey_iff {value : JSString} :
    reg.isResourceKey value = true ↔ ∃ d, reg.resource? value = some d := by
  simp [isResourceKey, resourceKeys, resource?_eq_some]

/-- The routes are those of the declared operations, each with its resource's owner. -/
theorem mem_routes {r : SubjectRoute} :
    r ∈ reg.routes ↔ ∃ resource d operation rule, reg.resource? resource = some d ∧
      reg.ruleFor resource operation = some rule ∧ routeOf resource d.owner operation rule = r := by
  simp only [routes, List.mem_flatMap, List.mem_filterMap, Option.map_eq_some_iff, Prod.exists,
    resource?_eq_some]
  constructor
  · intro h
    obtain ⟨resource, d, hd, operation, -, rule, hrule, rfl⟩ := h
    exact ⟨resource, d, operation, rule, hd, hrule, rfl⟩
  · intro h
    obtain ⟨resource, d, operation, rule, hd, hrule, rfl⟩ := h
    exact ⟨resource, d, hd, operation, mem_operations operation, rule, hrule, rfl⟩

/-- A resource and an operation have one route, since keys are declared once. -/
theorem routes_unique {r r' : SubjectRoute} (h : r ∈ reg.routes) (h' : r' ∈ reg.routes)
    (hresource : r.resource = r'.resource) (hoperation : r.operation = r'.operation) : r = r' := by
  obtain ⟨resource, d, operation, rule, hd, hrule, rfl⟩ := mem_routes.mp h
  obtain ⟨resource', d', operation', rule', hd', hrule', rfl⟩ := mem_routes.mp h'
  obtain rfl : resource = resource' := hresource
  obtain rfl : operation = operation' := hoperation
  obtain rfl := Option.some.inj (hd.symm.trans hd')
  obtain rfl := Option.some.inj (hrule.symm.trans hrule')
  rfl

/-- A route is found by its resource and operation, which no two routes share. -/
theorem findRoute_eq_some {resource : ResourceKey} {operation : Operation} {r : SubjectRoute} :
    reg.findRoute resource operation = some r ↔
      r ∈ reg.routes ∧ r.resource = resource ∧ r.operation = operation := by
  constructor
  · intro h
    have hfound := List.find?_some h
    rw [Bool.and_eq_true, beq_iff_eq, beq_iff_eq] at hfound
    exact ⟨List.mem_of_find?_eq_some h, hfound⟩
  · intro h
    obtain ⟨hmem, rfl, rfl⟩ := h
    have hsome : (reg.findRoute r.resource r.operation).isSome := by
      rw [findRoute, List.find?_isSome]
      exact ⟨r, hmem, by simp⟩
    obtain ⟨r', hr'⟩ := Option.isSome_iff_exists.mp hsome
    have hfound := List.find?_some hr'
    rw [Bool.and_eq_true, beq_iff_eq, beq_iff_eq] at hfound
    rw [hr', routes_unique (List.mem_of_find?_eq_some hr') hmem hfound.1 hfound.2]

theorem findRoute_of_rule {resource : ResourceKey} {operation : Operation} {d : ResourceDefinition}
    {rule : OperationRule} (hd : reg.resource? resource = some d)
    (hrule : reg.ruleFor resource operation = some rule) :
    reg.findRoute resource operation = some (routeOf resource d.owner operation rule) :=
  findRoute_eq_some.mpr ⟨mem_routes.mpr ⟨resource, d, operation, rule, hd, hrule, rfl⟩, rfl, rfl⟩

/-- A running maximum is no less than any of the numbers it has seen. -/
theorem le_foldl_max {n : ℤ} {ns : List ℤ} (h : n ∈ ns) (a : ℤ) : n ≤ ns.foldl max a := by
  induction ns generalizing a with
  | nil => cases h
  | cons m ms ih =>
      have hgrow : ∀ (ls : List ℤ) (b : ℤ), b ≤ ls.foldl max b := by
        intro ls
        induction ls with
        | nil => exact fun b => le_rfl
        | cons l ls ihls => exact fun b => (le_max_left b l).trans (ihls _)
      rcases List.mem_cons.mp h with rfl | h
      · exact (le_max_right a n).trans (hgrow ms _)
      · exact ih h _

/-- No declared operation is given more time than the longest of the timeouts. -/
theorem timeoutMs_le_max {resource : ResourceKey} {operation : Operation} {rule : OperationRule}
    (h : reg.ruleFor resource operation = some rule) : rule.timeoutMs ≤ reg.maxTimeoutMs := by
  obtain ⟨d, hd⟩ := resource?_of_ruleFor h
  refine le_foldl_max ?_ 0
  simp only [List.mem_flatMap, List.mem_filterMap, Option.map_eq_some_iff]
  exact ⟨resource, List.mem_map.mpr ⟨_, resource?_eq_some.mp hd, rfl⟩, operation,
    mem_operations operation, rule, h, rfl⟩

/-- A role holds the permissions of the operations whose rule it meets. -/
theorem mem_permissionsForRole {role : OrgRole} {permission : JSString} :
    permission ∈ reg.permissionsForRole role ↔ ∃ resource operation rule,
      reg.ruleFor resource operation = some rule ∧ roleAtLeast role rule.minRole = true ∧
      toPermission resource operation = permission := by
  simp only [permissionsForRole, List.mem_flatMap, List.mem_map, List.mem_filter, mem_operationsOf]
  constructor
  · rintro ⟨resource, -, operation, ⟨⟨rule, hrule⟩, hrole⟩, rfl⟩
    exact ⟨resource, operation, rule, hrule, by simpa [hrule] using hrole, rfl⟩
  · intro h
    obtain ⟨resource, operation, rule, hrule, hrole, rfl⟩ := h
    obtain ⟨d, hd⟩ := resource?_of_ruleFor hrule
    exact ⟨resource, List.mem_map.mpr ⟨_, resource?_eq_some.mp hd, rfl⟩, operation,
      ⟨⟨rule, hrule⟩, by simpa [hrule] using hrole⟩, rfl⟩

end Registry

/-- The check of a permission is membership in those that are held. -/
theorem can_iff {held : List JSString} {resource : ResourceKey} {operation : Operation} :
    can held resource operation = true ↔ toPermission resource operation ∈ held := by
  simp [can]

end Guardrail
