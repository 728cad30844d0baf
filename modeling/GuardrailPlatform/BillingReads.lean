import GuardrailPlatform.Handlers
import GuardrailPlatform.MeteredUsage
import GuardrailPlatform.PlanLookup
import GuardrailPlatform.Serving

/-!
# Asking Autumn

The billing service has no tables: what an organisation is entitled to is what
Autumn says of its customer.  The adapter asks once, and where that fails it
creates the customer and asks once more.  The SDK returns its errors, and a
second failure is refused, never read as the free plan.

Reads run beside one another and beside everything that changes a customer:
checkouts, the meter, a person at Autumn's own dashboard.  What a read answers
is still one customer at one moment, and a read that Autumn does not turn away
needs three calls at the most.
-/

namespace Guardrail

open Js
open Storage (Program Serving)
open Storage.Program (perform refuse)

/-! ## Autumn -/

/-- What the adapter reads of a customer. -/
structure AutumnAccount where
  customer : AutumnCustomer
  features : JSString → Option ℤ

/-- The SDK's `Result`: an error is returned, as the text that `JSON.stringify`
makes of it, and not thrown. -/
structure SdkResult (α : Type) where
  data : Option α
  error : Option JSString

/-- Autumn, as its SDK shows it: the customers it holds, whether it takes calls
at the moment, and the two calls the adapter makes. -/
structure Autumn (State : Type) where
  accounts : State → JSString → Option AutumnAccount
  Accepts : State → Prop
  /-- `customers.get`. -/
  get : JSString → Storage.Statement State (SdkResult AutumnAccount)
  /-- `customers.create`, whose result the adapter drops. -/
  create : JSString → Storage.Statement State Unit

/-- The documented behaviour.  A `get` returns the customer there is or an error,
and changes nothing.  Where Autumn takes calls it returns a customer that is
there, and a `create` leaves one there.  A customer that exists stays as it is. -/
structure Autumn.Documented {State : Type} (autumn : Autumn State) : Prop where
  shows : ∀ id s result t, autumn.get id s = some (result, t) →
    (∃ account, autumn.accounts s id = some account ∧ result = ⟨some account, none⟩) ∨
      ∃ error, result = ⟨none, some error⟩
  reads : ∀ id s result t, autumn.get id s = some (result, t) → autumn.accounts t = autumn.accounts s
  answers : ∀ id s, autumn.Accepts s → ∃ result t, autumn.get id s = some (result, t) ∧
    (autumn.accounts s id ≠ none → result.error = none)
  keeps : ∀ id s answer t, autumn.create id s = some (answer, t) → ∀ other,
    autumn.accounts s other ≠ none → autumn.accounts t other = autumn.accounts s other
  creates : ∀ id s, autumn.Accepts s → ∃ answer t, autumn.create id s = some (answer, t) ∧
    autumn.accounts t id ≠ none

/-! ## The adapter -/

/-- Programs that ask Autumn. -/
abbrev Asking (State α : Type) := Program State ServiceError α

/-- `unwrap`. -/
def unwrap {State α : Type} (result : SdkResult α) (what : JSString) : Asking State α :=
  match result.error, result.data with
  | none, some data => pure data
  | _, _ => refuse (serviceError .serviceUnavailable
      (str "Autumn refused " ++ what ++ str ": " ++ result.error.getD (str "null")))

/-- `{ plan: readPlan(customer), usage: readUsage(customer) }`. -/
def entitlementsOf (account : AutumnAccount) : Entitlements :=
  { plan := registry.readPlan account.customer, usage := readUsage account.features }

/-- `FALLBACK`. -/
def fallback : Entitlements := registry.emptyEntitlements

section Reads

variable {State : Type} (autumn : Autumn State)

/-- `billing.getEntitlements`.  Without a secret key there is no client. -/
def getEntitlements (configured : Bool) (organizationId : JSString) : Asking State Entitlements :=
  if configured = false then pure fallback
  else do
    let first ← perform (autumn.get organizationId)
    match first.error, first.data with
    | none, some account => pure (entitlementsOf account)
    | _, _ => do
      perform (autumn.create organizationId)
      let second ← perform (autumn.get organizationId)
      let account ← unwrap second (str "entitlements for " ++ organizationId)
      pure (entitlementsOf account)

/-! ## What a read sees -/

variable {autumn} {organizationId id : JSString} {s t : State}

/-- The entitlements of the organisation's customer, as Autumn has it. -/
def CustomerShown (autumn : Autumn State) (organizationId : JSString) (s : State)
    (entitlements : Entitlements) : Prop :=
  ∃ account, autumn.accounts s organizationId = some account ∧ entitlements = entitlementsOf account

/-- What a read returns is the fallback of an adapter without a key, or what
Autumn showed one of its calls. -/
theorem getEntitlements_sees (hautumn : autumn.Documented) (configured : Bool)
    (organizationId : JSString) :
    (getEntitlements autumn configured organizationId).Sees (CustomerShown autumn organizationId)
      fun entitlements => configured = false ∧ entitlements = fallback := by
  unfold getEntitlements
  by_cases hconfigured : configured = false
  · rw [if_pos hconfigured]
    exact ⟨hconfigured, rfl⟩
  · rw [if_neg hconfigured]
    intro s result t hget
    rcases hautumn.shows _ _ _ _ hget with ⟨account, haccount, rfl⟩ | ⟨error, rfl⟩
    · exact .inr ⟨account, haccount, rfl⟩
    · intro created _ _ _ s' result' t' hget'
      rcases hautumn.shows _ _ _ _ hget' with ⟨account, haccount, rfl⟩ | ⟨error', rfl⟩
      · exact .inr ⟨account, haccount, rfl⟩
      · trivial

/-- The organisation's customer is not taken away. -/
def StaysCustomer (autumn : Autumn State) (organizationId : JSString) (s t : State) : Prop :=
  autumn.accounts s organizationId ≠ none → autumn.accounts t organizationId ≠ none

/-- No customer is changed or taken away: at most there is a new one. -/
def Untouched (autumn : Autumn State) (s t : State) : Prop :=
  ∀ id, autumn.accounts s id ≠ none → autumn.accounts t id = autumn.accounts s id

theorem Untouched.refl (s : State) : Untouched autumn s s := fun _ _ => rfl

/-- A step that leaves Autumn's customers as they are takes none of them away. -/
theorem Untouched.stays (h : Untouched autumn s t) : StaysCustomer autumn organizationId s t :=
  fun hsome => (h organizationId hsome).symm ▸ hsome

/-- A read leaves every customer as it is: it only asks, and creates. -/
theorem getEntitlements_untouched (hautumn : autumn.Documented) (configured : Bool)
    (organizationId : JSString) :
    (getEntitlements autumn configured organizationId).Frames (Untouched autumn) := by
  unfold getEntitlements
  have hget : ∀ s result t, autumn.get organizationId s = some (result, t) →
      Untouched autumn s t :=
    fun s result t hget id _ => congrFun (hautumn.reads _ s result t hget) id
  split
  · trivial
  · refine .bind (.perform hget) fun first => ?_
    split
    · trivial
    · refine .bind (.perform fun s answer t hcreate => hautumn.keeps _ s answer t hcreate) fun _ =>
        .bind (.perform hget) fun second => .bind ?_ fun _ => trivial
      unfold unwrap
      split <;> trivial

/-- Where calls are taken, asking for a customer that is there shows one, and no error. -/
theorem get_of_accepts (hautumn : autumn.Documented) (haccepts : autumn.Accepts s)
    (hthere : autumn.accounts s id ≠ none) :
    ∃ account t, autumn.get id s = some (⟨some account, none⟩, t) := by
  obtain ⟨result, t, hget, hshown⟩ := hautumn.answers id s haccepts
  rcases hautumn.shows _ _ _ _ hget with ⟨account, -, rfl⟩ | ⟨error, rfl⟩
  · exact ⟨account, t, hget⟩
  · cases hshown hthere

/-- **Three calls.**  A read that Autumn does not turn away, and whose customer
nobody takes away, is answered. -/
theorem getEntitlements_answers (hautumn : autumn.Documented) (configured : Bool)
    (organizationId : JSString) (s : State) :
    (getEntitlements autumn configured organizationId).Answers autumn.Accepts
      (StaysCustomer autumn organizationId) 3 s := by
  unfold getEntitlements
  by_cases hconfigured : configured = false
  · rw [if_pos hconfigured]
    trivial
  · rw [if_neg hconfigured]
    intro first _ haccepts
    obtain ⟨result, asked, hget, -⟩ := hautumn.answers organizationId first haccepts
    refine ⟨result, asked, hget, ?_⟩
    rcases hautumn.shows _ _ _ _ hget with ⟨account, -, rfl⟩ | ⟨error, rfl⟩
    · trivial
    · intro second _ haccepts'
      obtain ⟨answer, created, hcreate, hthere⟩ := hautumn.creates organizationId second haccepts'
      refine ⟨answer, created, hcreate, ?_⟩
      intro third hstays haccepts''
      obtain ⟨account, done, hget'⟩ := get_of_accepts hautumn haccepts'' (hstays hthere)
      exact ⟨_, done, hget', trivial⟩

end Reads

/-! ## Reads at work -/

section Runs

variable {State : Type} (autumn : Autumn State) (configured : Bool) (start : State)

/-- Autumn and the reads under way. -/
abbrev readsAt (history : List (Serving ℕ JSString State)) :
    Storage.Shared ℕ State ServiceError Entitlements :=
  Serving.world (getEntitlements autumn configured) start history

/-- The event leaves a read of the organisation healthy: the calls it makes meet
no fault and an Autumn that takes them, and nobody takes its customer away. -/
def Healthy (read : ℕ) (organizationId : JSString) (history : List (Serving ℕ JSString State)) :
    Serving ℕ JSString State → Prop
  | .began other _ => other ≠ read
  | .turn taken => taken.thread = read →
    taken.fault = none ∧ autumn.Accepts (readsAt autumn configured start history).store
  | .outside s => StaysCustomer autumn organizationId (readsAt autumn configured start history).store s

/-- **What a read answers.**  However reads, checkouts and the meter interleave
and whatever Autumn fails at, an answer is the organisation's own customer as it
was at one moment since the read began: its usage, and the highest plan that a
live product of it attaches.  A paid plan is never made up, and the fallback is
the answer only where no key is configured. -/
theorem read_is_snapshot (hautumn : autumn.Documented)
    (later earlier : List (Serving ℕ JSString State)) (read : ℕ)
    (organizationId : JSString) (hlast : ∀ other, .began read other ∉ later)
    (entitlements : Entitlements)
    (hanswer : (readsAt autumn configured start
      (later ++ .began read organizationId :: earlier)).threads read =
        .done (.returned entitlements)) :
    (configured = false ∧ entitlements = fallback) ∨
    ∃ moment account, .began read organizationId :: earlier <:+ moment ∧
      moment <:+ later ++ .began read organizationId :: earlier ∧
      autumn.accounts (readsAt autumn configured start moment).store organizationId = some account ∧
      entitlements.usage = readUsage account.features ∧
      ((entitlements.plan = defaultPlan ∧ ∀ plan, ¬ registry.Attached account.customer plan) ∨
        (registry.Attached account.customer entitlements.plan ∧
          ∀ plan, registry.Attached account.customer plan →
            registry.planRank plan ≤ registry.planRank entitlements.plan)) := by
  have hsees := @Serving.seen_since State ServiceError Entitlements ℕ JSString _
    (getEntitlements autumn configured) start earlier later read organizationId _ _
    (getEntitlements_sees hautumn configured organizationId) hlast
  rw [hanswer] at hsees
  rcases hsees with hfallback | ⟨moment, hsince, huntil, account, haccount, rfl⟩
  · exact .inl hfallback
  · exact .inr ⟨moment, account, hsince, huntil, haccount, rfl,
      Registry.readPlan_spec registry_ladder account.customer⟩

/-- **A read gets its answer.**  Also an organisation's first read, before which
Autumn knows no such customer, is answered once it has made three calls, where
Autumn takes them and nobody takes the customer away meanwhile. -/
theorem read_answers (hautumn : autumn.Documented)
    (later earlier : List (Serving ℕ JSString State)) (read : ℕ) (organizationId : JSString)
    (hhealthy : ∀ event middle, event :: middle <:+ later ++ .began read organizationId :: earlier →
      .began read organizationId :: earlier <:+ middle →
      Healthy autumn configured start read organizationId middle event)
    (hturns : 3 ≤ Serving.turnsOf read later) :
    ∃ entitlements,
      (readsAt autumn configured start
        (later ++ .began read organizationId :: earlier)).threads read =
          .done (.returned entitlements) := by
  refine Serving.answered (fun _ h => h) (fun _ _ _ h h' hsome => h' (h hsome))
    (getEntitlements_answers hautumn configured organizationId) ?_ hturns
  intro event middle hmiddle hsince
  have hevent := hhealthy event middle hmiddle hsince
  cases event with
  | began other request => exact hevent
  | outside s => exact hevent
  | turn taken =>
      refine ⟨hevent, fun _ => ?_⟩
      -- another read takes no customer away
      have hframes : ((readsAt autumn configured start middle).threads taken.thread).Frames
          (Untouched autumn) :=
        Serving.threads_frames Untouched.refl (getEntitlements_untouched hautumn configured) _ _
      exact (hframes.advance Untouched.refl taken.fault _).1.stays

end Runs

/-! ### A first read, and a paid one -/

section FirstRead

/-- The customers of an Autumn that takes every call. -/
abbrev Customers := JSString → Option AutumnAccount

/-- What a customer is created with: no product and no usage. -/
def newAccount : AutumnAccount := ⟨⟨none⟩, fun _ => none⟩

/-- An Autumn that is never down. -/
def steadyAutumn : Autumn Customers where
  accounts := fun customers => customers
  Accepts := fun _ => True
  get := fun id customers =>
    match customers id with
    | none => some (⟨none, some (str "no such customer")⟩, customers)
    | some account => some (⟨some account, none⟩, customers)
  create := fun id customers =>
    match customers id with
    | none => some ((), Function.update customers id (some newAccount))
    | some _ => some ((), customers)

/-- The Autumn that is written out for the examples behaves as the documentation of the real
one says. -/
theorem steadyAutumn_documented : steadyAutumn.Documented where
  shows := by
    intro id customers result t h
    dsimp only [steadyAutumn] at h
    split at h
    · obtain ⟨rfl, -⟩ := Prod.mk.inj (Option.some.inj h)
      exact .inr ⟨_, rfl⟩
    · rename_i account hsome
      obtain ⟨rfl, -⟩ := Prod.mk.inj (Option.some.inj h)
      exact .inl ⟨account, hsome, rfl⟩
  reads := by
    intro id customers result t h
    dsimp only [steadyAutumn] at h
    split at h <;> exact congrArg _ (Prod.mk.inj (Option.some.inj h)).2.symm
  answers := by
    intro id customers _
    cases hcustomer : customers id with
    | none =>
        exact ⟨⟨none, some (str "no such customer")⟩, customers,
          by simp only [steadyAutumn, hcustomer], fun hthere => absurd hcustomer hthere⟩
    | some account =>
        exact ⟨⟨some account, none⟩, customers, by simp only [steadyAutumn, hcustomer], fun _ => rfl⟩
  keeps := by
    intro id customers answer t h other hthere
    dsimp only [steadyAutumn] at h
    split at h
    · rename_i hnone
      obtain ⟨-, rfl⟩ := Prod.mk.inj (Option.some.inj h)
      have hother : other ≠ id := by
        rintro rfl
        exact hthere hnone
      exact Function.update_of_ne hother _ _
    · obtain ⟨-, rfl⟩ := Prod.mk.inj (Option.some.inj h)
      rfl
  creates := by
    intro id customers _
    cases hcustomer : customers id with
    | none =>
        refine ⟨(), Function.update customers id (some newAccount),
          by simp only [steadyAutumn, hcustomer], ?_⟩
        simp [steadyAutumn]
    | some account =>
        refine ⟨(), customers, by simp only [steadyAutumn, hcustomer], fun hnone => ?_⟩
        cases hcustomer.symm.trans hnone

def threeTurns : List (Serving ℕ JSString Customers) :=
  [.turn ⟨0, none⟩, .turn ⟨0, none⟩, .turn ⟨0, none⟩]

/-- An organisation's first read is answered in three turns, though Autumn had no such
customer before. -/
theorem first_read_answers : ∃ entitlements,
    (readsAt steadyAutumn true (fun _ => none)
      (threeTurns ++ .began 0 (str "acme") :: [])).threads 0 = .done (.returned entitlements) := by
  refine read_answers steadyAutumn true (fun _ => none) steadyAutumn_documented threeTurns [] 0
    (str "acme") ?_ (by decide)
  intro event middle hmiddle hsince
  rcases List.suffix_cons_iff.mp hmiddle with hsame | hmiddle
  · obtain ⟨rfl, rfl⟩ := List.cons.inj hsame
    exact fun _ => ⟨rfl, trivial⟩
  rcases List.suffix_cons_iff.mp hmiddle with hsame | hmiddle
  · obtain ⟨rfl, rfl⟩ := List.cons.inj hsame
    exact fun _ => ⟨rfl, trivial⟩
  rcases List.suffix_cons_iff.mp hmiddle with hsame | hmiddle
  · obtain ⟨rfl, rfl⟩ := List.cons.inj hsame
    exact fun _ => ⟨rfl, trivial⟩
  -- nothing of the read is before its beginning
  have hlong : 1 ≤ middle.length := hsince.length_le
  have hshort : middle.length + 1 ≤ 1 := hmiddle.length_le
  omega

/-- A customer of the pro plan. -/
def proAccount : AutumnAccount := ⟨⟨some [⟨some (str "pro"), none⟩]⟩, fun _ => none⟩

/-- A paying organisation's read answers its plan and its usage, both as one moment of
Autumn had them. -/
theorem paid_read_is_snapshot :
    let start : Customers := fun _ => some proAccount
    let entitlements := entitlementsOf proAccount
    (readsAt steadyAutumn true start ([.turn ⟨0, none⟩] ++ .began 0 (str "acme") :: [])).threads 0 =
      .done (.returned entitlements) ∧
    ((true = false ∧ entitlements = fallback) ∨
    ∃ moment account, [.began 0 (str "acme")] <:+ moment ∧
      moment <:+ [.turn ⟨0, none⟩] ++ .began 0 (str "acme") :: [] ∧
      steadyAutumn.accounts (readsAt steadyAutumn true start moment).store (str "acme") =
        some account ∧
      entitlements.usage = readUsage account.features ∧
      ((entitlements.plan = defaultPlan ∧ ∀ plan, ¬ registry.Attached account.customer plan) ∨
        (registry.Attached account.customer entitlements.plan ∧
          ∀ plan, registry.Attached account.customer plan →
            registry.planRank plan ≤ registry.planRank entitlements.plan))) := by
  intro start entitlements
  have hanswer : (readsAt steadyAutumn true start
      ([.turn ⟨0, none⟩] ++ .began 0 (str "acme") :: [])).threads 0 =
        .done (.returned entitlements) := rfl
  refine ⟨hanswer, ?_⟩
  apply read_is_snapshot steadyAutumn true start steadyAutumn_documented [.turn ⟨0, none⟩] [] 0
    (str "acme") _ entitlements hanswer
  intro other hmem
  cases List.mem_singleton.mp hmem

end FirstRead

end Guardrail
