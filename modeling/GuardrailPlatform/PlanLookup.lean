import GuardrailPlatform.RankedChoice
import GuardrailPlatform.RegistryData

/-!
# From a customer's products to a plan

`readPlan` keeps the live products of an Autumn customer, turns each into the
plan that sells it, and takes the highest.  The plans form a ladder: no two have
one rank or one product, the default plan is the lowest, and a higher plan
allows at least as much of every resource.  On a ladder one more product can
only raise the plan, and a raised plan refuses nothing it used to allow.
-/

namespace Guardrail

open Js Ranked

/-! ## Reading a customer -/

/-- An attached product, both fields of which Autumn may leave out. -/
structure AutumnProduct where
  id : Option JSString
  status : Option JSString

/-- The part of Autumn's customer that `readPlan` reads. -/
structure AutumnCustomer where
  products : Option (List AutumnProduct)

def AutumnProduct.isLive (product : AutumnProduct) : Bool :=
  product.status != some (str "expired") && product.status != some (str "canceled")

namespace Registry

variable (reg : Registry)

def planFromAutumnProductId (productId : JSString) : Option PlanKey :=
  (reg.plans.find? (fun entry => entry.2.autumnProductId == productId)).map Prod.fst

/-- The plan a product is sold as.  An absent id is as good as an empty one. -/
def planOfProduct (product : AutumnProduct) : Option PlanKey :=
  match product.id with
  | none => none
  | some [] => none
  | some productId => reg.planFromAutumnProductId productId

def planRank (plan : PlanKey) : ℤ := ((reg.plans.lookup plan).map (·.rank)).getD 0

/-- The plans of the live products, in the order of the payload. -/
def candidatePlans (customer : AutumnCustomer) : List PlanKey :=
  ((customer.products.getD []).filter AutumnProduct.isLive).filterMap reg.planOfProduct

def readPlan (customer : AutumnCustomer) : PlanKey :=
  match reg.candidatePlans customer with
  | [] => reg.defaultPlan
  | first :: rest =>
    rest.foldl (fun best plan => if reg.planRank plan > reg.planRank best then plan else best) first

/-- The product is live and the plan sells it. -/
def Attaches (product : AutumnProduct) (plan : PlanKey) : Prop :=
  product.isLive = true ∧ ∃ d, (plan, d) ∈ reg.plans ∧ product.id = some d.autumnProductId

/-- Some product of the customer attaches the plan. -/
def Attached (customer : AutumnCustomer) (plan : PlanKey) : Prop :=
  ∃ product ∈ customer.products.getD [], reg.Attaches product plan

end Registry

example : registry.readPlan ⟨some [⟨some (str "pro"), none⟩, ⟨some (str "scale"), some (str "expired")⟩,
    ⟨some (str "free"), some (str "active")⟩]⟩ = str "pro" := by decide

/-! ## What a limit admits -/

/-- Does the gate let the request through? -/
def AccessDecision.isAllowed : AccessDecision → Bool
  | .allowed .. => true
  | .denied .. => false

/-- A limit's verdict on an amount, known by the bounds it exceeds. -/
def Limit.admits (exceeds : ℤ → Bool) : Limit → Bool
  | .notIncluded => false
  | .unlimited => true
  | .atMost n => !exceeds n

/-- The second limit is no tighter than the first. -/
def Limit.loosens : Limit → Limit → Bool
  | .notIncluded, _ => true
  | _, .unlimited => true
  | .atMost m, .atMost n => decide (m ≤ n)
  | _, _ => false

/-- `x > n`, for a JavaScript number and a declared limit. -/
def exceedsLimit : Number → ℤ → Bool
  | .nan, _ => false
  | .infinity negative, _ => !negative
  | .finite x, n => decide (x.value > n)

/-- Is the request let through, where usage and request are any JavaScript
numbers?  `add` is the language's rounded sum. -/
def Registry.allowsAmount (reg : Registry) (add : Number → Number → Number)
    (resource : ResourceKey) (plan : PlanKey) (usage : ResourceKey → Option Number)
    (requested : Number) : Bool :=
  let used := (usage resource).getD (.finite (.ofInt 0))
  (reg.limitFor resource plan).admits (exceedsLimit (add used requested))

/-- A number that exceeds a limit exceeds every lower limit, also where it is no whole
number. -/
theorem exceedsLimit_of_le {x : Number} {m n : ℤ} (hle : m ≤ n) (h : exceedsLimit x n = true) :
    exceedsLimit x m = true := by
  cases x with
  | nan => cases h
  | infinity negative => exact h
  | finite x =>
      have hvalue : (n : ℚ) < x.value := of_decide_eq_true h
      have hbound : (m : ℚ) ≤ n := by exact_mod_cast hle
      exact decide_eq_true (hbound.trans_lt hvalue)

/-- A looser limit admits what a tighter one does, for any test that lower limits fail
first. -/
theorem Limit.admits_of_loosens {exceeds : ℤ → Bool} {limit limit' : Limit}
    (hexceeds : ∀ m n, m ≤ n → exceeds n = true → exceeds m = true)
    (hlimits : limit.loosens limit' = true) (h : limit.admits exceeds = true) :
    limit'.admits exceeds = true := by
  cases limit with
  | notIncluded => cases h
  | unlimited =>
      cases limit' with
      | unlimited => rfl
      | _ => cases hlimits
  | atMost m =>
      cases limit' with
      | notIncluded => cases hlimits
      | unlimited => rfl
      | atMost n =>
          have hle : m ≤ n := of_decide_eq_true hlimits
          rw [admits, Bool.not_eq_true'] at h ⊢
          by_contra hn
          rw [hexceeds m n hle (Bool.eq_true_of_not_eq_false hn)] at h
          cases h

/-- The gate admits a request exactly where the limit of the resource on the plan admits it.
-/
theorem Registry.isAllowed_checkResourceAccess (reg : Registry) (resource : ResourceKey)
    (entitlements : Entitlements) (requested : ℤ) :
    (reg.checkResourceAccess resource entitlements requested).isAllowed =
      (reg.limitFor resource entitlements.plan).admits
        (fun n => decide ((entitlements.usage resource).getD 0 + requested > n)) := by
  unfold checkResourceAccess
  cases reg.limitFor resource entitlements.plan with
  | notIncluded => rfl
  | unlimited => rfl
  | atMost n =>
      by_cases h : (entitlements.usage resource).getD 0 + requested > n
      · simp [h, Limit.admits, AccessDecision.isAllowed]
      · simp [h, Limit.admits, AccessDecision.isAllowed]

/-! ## The ladder of plans -/

namespace Registry

/-- Plans are told apart by rank and by product, the default is the lowest, and
a higher plan is nowhere tighter. -/
structure Ladder (reg : Registry) : Prop where
  ranks : (reg.plans.map (·.2.rank)).Nodup
  products : (reg.plans.map (·.2.autumnProductId)).Nodup
  sold : ∀ entry ∈ reg.plans, entry.2.autumnProductId ≠ []
  lowest : ∀ entry ∈ reg.plans, reg.planRank reg.defaultPlan ≤ entry.2.rank
  loosens : ∀ resource ∈ reg.resourceKeys, ∀ lower ∈ reg.plans, ∀ upper ∈ reg.plans,
    lower.2.rank ≤ upper.2.rank →
      (reg.limitFor resource lower.1).loosens (reg.limitFor resource upper.1) = true

variable {reg : Registry}

/-- A plan's rank is the one which its definition in the registry declares. -/
theorem planRank_eq {plan : PlanKey} {d : PlanDefinition} (h : (plan, d) ∈ reg.plans) :
    reg.planRank plan = d.rank := by
  rw [planRank, (lookup_eq_some_iff_mem reg.plans_nodup).mpr h]
  rfl

/-- The plan keys are exactly those under which the registry declares a plan. -/
theorem mem_planKeys {plan : PlanKey} : plan ∈ reg.planKeys ↔ ∃ d, (plan, d) ∈ reg.plans := by
  simp [planKeys]

/-- On a ladder no two declared plans share a rank, so a rank names its plan. -/
theorem planRank_injOn (h : reg.Ladder) {plan plan' : PlanKey} (hplan : plan ∈ reg.planKeys)
    (hplan' : plan' ∈ reg.planKeys) (hrank : reg.planRank plan = reg.planRank plan') :
    plan = plan' := by
  obtain ⟨d, hd⟩ := mem_planKeys.mp hplan
  obtain ⟨d', hd'⟩ := mem_planKeys.mp hplan'
  rw [planRank_eq hd, planRank_eq hd'] at hrank
  have hsame : (plan, d) = (plan', d') := List.inj_on_of_nodup_map h.ranks hd hd' hrank
  exact congrArg Prod.fst hsame

/-- A product leads to the plan that is declared for it, which on a ladder is
one. -/
theorem planFromAutumnProductId_eq_some (h : reg.Ladder) {productId : JSString} {plan : PlanKey} :
    reg.planFromAutumnProductId productId = some plan ↔
      ∃ d, (plan, d) ∈ reg.plans ∧ d.autumnProductId = productId := by
  constructor
  · intro hfound
    obtain ⟨entry, hentry, rfl⟩ := Option.map_eq_some_iff.mp hfound
    have hid := List.find?_some hentry
    exact ⟨entry.2, List.mem_of_find?_eq_some hentry, beq_iff_eq.mp hid⟩
  · intro hsells
    obtain ⟨d, hd, rfl⟩ := hsells
    have hsome : (reg.plans.find? (fun entry =>
        entry.2.autumnProductId == d.autumnProductId)).isSome := by
      rw [List.find?_isSome]
      exact ⟨(plan, d), hd, beq_self_eq_true _⟩
    obtain ⟨entry, hentry⟩ := Option.isSome_iff_exists.mp hsome
    have hid := List.find?_some hentry
    have hsame : entry = (plan, d) :=
      List.inj_on_of_nodup_map h.products (List.mem_of_find?_eq_some hentry) hd (beq_iff_eq.mp hid)
    rw [planFromAutumnProductId, hentry, hsame]
    rfl

theorem planOfProduct_eq_some (h : reg.Ladder) {product : AutumnProduct} {plan : PlanKey} :
    reg.planOfProduct product = some plan ↔
      ∃ d, (plan, d) ∈ reg.plans ∧ product.id = some d.autumnProductId := by
  unfold planOfProduct
  split
  · rename_i hid
    simp [hid]
  · rename_i hid
    simp only [hid, reduceCtorEq, Option.some.injEq, false_iff, not_exists, not_and]
    intro d hd hempty
    exact h.sold _ hd hempty.symm
  · rename_i productId _ hid
    rw [planFromAutumnProductId_eq_some h, hid]
    simp only [Option.some.injEq, eq_comm]

theorem mem_candidatePlans (h : reg.Ladder) {customer : AutumnCustomer} {plan : PlanKey} :
    plan ∈ reg.candidatePlans customer ↔ reg.Attached customer plan := by
  simp only [candidatePlans, List.mem_filterMap, List.mem_filter, planOfProduct_eq_some h, Attached,
    Attaches, and_assoc]

theorem mem_planKeys_of_attached {customer : AutumnCustomer} {plan : PlanKey}
    (h : reg.Attached customer plan) : plan ∈ reg.planKeys := by
  obtain ⟨product, -, -, d, hd, -⟩ := h
  exact mem_planKeys.mpr ⟨d, hd⟩

/-- The first candidate only starts the fold, so the plan read is the highest of all
candidates. -/
theorem readPlan_eq_highest {customer : AutumnCustomer} {first : PlanKey} {rest : List PlanKey}
    (h : reg.candidatePlans customer = first :: rest) :
    reg.readPlan customer = highest reg.planRank first rest := by
  unfold readPlan
  rw [h]
  rfl

/-- What `readPlan` returns: the default where nothing is attached, otherwise
the attached plan that no attached plan outranks. -/
theorem readPlan_spec (h : reg.Ladder) (customer : AutumnCustomer) :
    (reg.readPlan customer = reg.defaultPlan ∧ ∀ plan, ¬ reg.Attached customer plan) ∨
      (reg.Attached customer (reg.readPlan customer) ∧ ∀ plan, reg.Attached customer plan →
        reg.planRank plan ≤ reg.planRank (reg.readPlan customer)) := by
  cases hcandidates : reg.candidatePlans customer with
  | nil =>
      refine .inl ⟨?_, fun plan hplan => ?_⟩
      · rw [readPlan, hcandidates]
      · have hmem := (mem_candidatePlans h).mpr hplan
        rw [hcandidates] at hmem
        exact List.not_mem_nil hmem
  | cons first rest =>
      refine .inr ?_
      rw [readPlan_eq_highest hcandidates]
      constructor
      · apply (mem_candidatePlans h).mp
        rw [hcandidates]
        exact highest_mem first rest
      · intro plan hplan
        have hmem := (mem_candidatePlans h).mpr hplan
        rw [hcandidates] at hmem
        exact rank_le_highest first rest plan hmem

theorem readPlan_declared (h : reg.Ladder) (customer : AutumnCustomer) :
    reg.readPlan customer ∈ reg.planKeys := by
  rcases readPlan_spec h customer with ⟨hdefault, -⟩ | ⟨hattached, -⟩
  · rw [hdefault]
    exact reg.default_declared
  · exact mem_planKeys_of_attached hattached

/-- A customer with more attached plans is read with no lower a plan, in whatever order they
come. -/
theorem planRank_readPlan_mono (h : reg.Ladder) {customer customer' : AutumnCustomer}
    (hmore : ∀ plan, reg.Attached customer plan → reg.Attached customer' plan) :
    reg.planRank (reg.readPlan customer) ≤ reg.planRank (reg.readPlan customer') := by
  rcases readPlan_spec h customer with ⟨hdefault, -⟩ | ⟨hattached, -⟩
  · obtain ⟨d, hd⟩ := mem_planKeys.mp (readPlan_declared h customer')
    rw [hdefault, planRank_eq hd]
    exact h.lowest _ hd
  · have hattached' := hmore _ hattached
    rcases readPlan_spec h customer' with ⟨-, hnone⟩ | ⟨-, htop⟩
    · exact absurd hattached' (hnone _)
    · exact htop _ hattached'

theorem readPlan_congr (h : reg.Ladder) {customer customer' : AutumnCustomer}
    (hsame : ∀ plan, reg.Attached customer plan ↔ reg.Attached customer' plan) :
    reg.readPlan customer = reg.readPlan customer' := by
  apply planRank_injOn h (readPlan_declared h _) (readPlan_declared h _)
  exact le_antisymm (planRank_readPlan_mono h fun plan => (hsame plan).mp)
    (planRank_readPlan_mono h fun plan => (hsame plan).mpr)

/-- On a ladder a plan of no lower rank is nowhere tighter, whichever the resource. -/
theorem limitFor_loosens (h : reg.Ladder) {plan plan' : PlanKey} (hplan : plan ∈ reg.planKeys)
    (hplan' : plan' ∈ reg.planKeys) (hrank : reg.planRank plan ≤ reg.planRank plan')
    (resource : ResourceKey) :
    (reg.limitFor resource plan).loosens (reg.limitFor resource plan') = true := by
  by_cases hresource : resource ∈ reg.resourceKeys
  · obtain ⟨d, hd⟩ := mem_planKeys.mp hplan
    obtain ⟨d', hd'⟩ := mem_planKeys.mp hplan'
    rw [planRank_eq hd, planRank_eq hd'] at hrank
    exact h.loosens resource hresource _ hd _ hd' hrank
  · have hnone : reg.resource? resource = none := by
      rw [Option.eq_none_iff_forall_ne_some]
      intro d hd
      exact hresource (List.mem_map.mpr ⟨_, resource?_eq_some.mp hd, rfl⟩)
    rw [limitFor, limitFor, hnone]
    rfl

end Registry

theorem registry_ladder : registry.Ladder where
  ranks := by decide
  products := by decide
  sold := by decide
  lowest := by decide
  loosens := by decide

/-! ## One more product -/

/-- A customer with one more product, anywhere in its list. -/
def AutumnCustomer.Adds (customer customer' : AutumnCustomer) (product : AutumnProduct) : Prop :=
  ∃ front back, customer.products.getD [] = front ++ back ∧
    customer'.products = some (front ++ product :: back)

theorem AutumnCustomer.Adds.attached {reg : Registry} {customer customer' : AutumnCustomer}
    {product : AutumnProduct} (h : customer.Adds customer' product) {plan : PlanKey}
    (hplan : reg.Attached customer plan) : reg.Attached customer' plan := by
  obtain ⟨front, back, hbefore, hafter⟩ := h
  obtain ⟨other, hmem, hattaches⟩ := hplan
  refine ⟨other, ?_, hattaches⟩
  rw [hbefore, List.mem_append] at hmem
  rw [hafter, Option.getD_some, List.mem_append, List.mem_cons]
  exact hmem.imp_right .inr

/-- **Adding a product never takes access away.**  The plan is the default or
the highest attached one, whatever the order of the products; and what the gate
allows under it, it allows with one more product. -/
theorem added_product_keeps_access :
    (∀ customer,
      (registry.readPlan customer = defaultPlan ∧ ∀ plan, ¬ registry.Attached customer plan) ∨
      (registry.Attached customer (registry.readPlan customer) ∧
        ∀ plan, registry.Attached customer plan →
          registry.planRank plan ≤ registry.planRank (registry.readPlan customer))) ∧
    (∀ products products', products.Perm products' →
      registry.readPlan ⟨some products⟩ = registry.readPlan ⟨some products'⟩) ∧
    ∀ customer customer' product, customer.Adds customer' product → ∀ resource,
      (∀ usage requested,
        (registry.checkResourceAccess resource ⟨registry.readPlan customer, usage⟩
          requested).isAllowed = true →
        (registry.checkResourceAccess resource ⟨registry.readPlan customer', usage⟩
          requested).isAllowed = true) ∧
      ∀ add usage requested,
        registry.allowsAmount add resource (registry.readPlan customer) usage requested = true →
        registry.allowsAmount add resource (registry.readPlan customer') usage requested = true := by
  refine ⟨Registry.readPlan_spec registry_ladder, ?_, ?_⟩
  · intro products products' hperm
    apply Registry.readPlan_congr registry_ladder
    intro plan
    simp only [Registry.Attached, Option.getD_some, hperm.mem_iff]
  · intro customer customer' product hadds resource
    have hrank := Registry.planRank_readPlan_mono registry_ladder
      (fun plan hplan => hadds.attached hplan)
    have hloosens := Registry.limitFor_loosens registry_ladder
      (Registry.readPlan_declared registry_ladder customer)
      (Registry.readPlan_declared registry_ladder customer') hrank resource
    constructor
    · intro usage requested hallowed
      rw [Registry.isAllowed_checkResourceAccess] at hallowed ⊢
      refine Limit.admits_of_loosens ?_ hloosens hallowed
      intro m n hle hexceeds
      have hsum := of_decide_eq_true hexceeds
      exact decide_eq_true (by omega)
    · intro add usage requested hallowed
      exact Limit.admits_of_loosens (fun m n hle => exceedsLimit_of_le hle) hloosens hallowed

end Guardrail
