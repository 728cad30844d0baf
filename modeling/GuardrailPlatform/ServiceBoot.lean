import GuardrailPlatform.RegistryData
import GuardrailPlatform.Service
import GuardrailPlatform.Subjects

/-!
# What a boot binds

`defineService` checks each handler against the routes and the routes against
the handlers.  Together the checks say that handlers and owned routes name the
same operations.  They say nothing of how often: an operation handled twice
boots, its subject is listed twice, and the lookup by first match leaves the
second handler unreachable.
-/

namespace Guardrail

open Js

variable {Effect : Type*} {reg : Registry} {service : ServiceName}

/-- What a handler answers for. -/
def HandlerEntry.pair (entry : HandlerEntry Effect) : ResourceKey × Operation :=
  (entry.resource, entry.operation)

def SubjectRoute.pair (route : SubjectRoute) : ResourceKey × Operation :=
  (route.resource, route.operation)

/-- The operations the registry gives to a service, in route order. -/
def ownedPairs (reg : Registry) (service : ServiceName) : List (ResourceKey × Operation) :=
  (reg.routes.filter (·.owner == service)).map (·.pair)

/-- `runtime.routes`. -/
def ServiceRuntime.routes (rt : ServiceRuntime reg Effect) : List ServiceRoute :=
  rt.bindings.map (·.route)

/-- Which handler the lookup of `handle` finds for an operation. -/
def ServiceRuntime.foundAt (rt : ServiceRuntime reg Effect) (resource : ResourceKey)
    (operation : Operation) : Option ℕ :=
  rt.bindings.findIdx? (·.serves resource operation)

def Boots (reg : Registry) (service : ServiceName) (handlers : List (HandlerEntry Effect)) : Prop :=
  ∃ rt, defineService reg service handlers = .ok rt

/-- The handlers answer for exactly what the service owns. -/
def CoversOwned (reg : Registry) (service : ServiceName) (handlers : List (HandlerEntry Effect)) :
    Prop :=
  ∀ pair, pair ∈ handlers.map (·.pair) ↔ pair ∈ ownedPairs reg service

/-- No operation is handled twice. -/
def HandlesOnce (handlers : List (HandlerEntry Effect)) : Prop := (handlers.map (·.pair)).Nodup

/-- Each owned subject is listed once, and the lookup finds every handler. -/
structure BoundOnce (rt : ServiceRuntime reg Effect) (handlers : List (HandlerEntry Effect)) :
    Prop where
  listed : ∀ subject, subject ∈ rt.routes.map (·.subject) ↔
    ∃ r ∈ reg.routes, r.owner = rt.service ∧ r.subject = subject
  once : (rt.routes.map (·.subject)).Nodup
  reached : ∀ i < handlers.length, ∃ resource operation, rt.foundAt resource operation = some i

/-- A boot binds every owned operation exactly once, or does not happen. -/
def BootIsExact (reg : Registry) (service : ServiceName) (handlers : List (HandlerEntry Effect)) :
    Prop :=
  (Boots reg service handlers ↔ HandlesOnce handlers ∧ CoversOwned reg service handlers) ∧
    ∀ rt, defineService reg service handlers = .ok rt → BoundOnce rt handlers

/-! ## Subjects of routes -/

/-- No operation's name holds the dot that the parts of a subject are joined with. -/
theorem dot_notMem_operation (operation : Operation) : (46 : UInt16) ∉ operation.name := by
  cases operation <;> decide

/-- The mark a transport puts before its subjects. -/
def Transport.head : Transport → JSString
  | .rpc => str "rpc."
  | .command => str "cmd."

/-- A route's subject is its transport's head, its resource and its operation. -/
theorem subject_of_routeOf (resource : ResourceKey) (owner : ServiceName) (operation : Operation)
    (rule : OperationRule) : (Registry.routeOf resource owner operation rule).subject =
      rule.transport.head ++ resource ++ 46 :: operation.name := by
  have hdot : str "." = [46] := by decide
  cases htransport : rule.transport <;>
    simp [Registry.routeOf, htransport, rpcSubject, commandSubject, Transport.head, hdot]

theorem pair_of_subject {r r' : SubjectRoute} (h : r ∈ reg.routes) (h' : r' ∈ reg.routes)
    (hsubject : r.subject = r'.subject) : r.pair = r'.pair := by
  obtain ⟨resource, d, operation, rule, -, -, rfl⟩ := Registry.mem_routes.mp h
  obtain ⟨resource', d', operation', rule', -, -, rfl⟩ := Registry.mem_routes.mp h'
  rw [subject_of_routeOf, subject_of_routeOf] at hsubject
  obtain ⟨hfront, hback⟩ := Subjects.last_separator_injective (dot_notMem_operation operation)
    (dot_notMem_operation operation') hsubject
  have hlength : ∀ transport : Transport, transport.head.length = 4 := by
    intro transport
    cases transport <;> decide
  obtain ⟨-, hresource⟩ := List.append_inj hfront ((hlength _).trans (hlength _).symm)
  exact Prod.ext hresource (Operation.name_injective hback)

/-! ## When a service boots -/

/-- The pairs a service has to handle are those of the routes it owns. -/
theorem mem_ownedPairs {pair : ResourceKey × Operation} :
    pair ∈ ownedPairs reg service ↔ ∃ r ∈ reg.routes, r.owner = service ∧ r.pair = pair := by
  simp only [ownedPairs, List.mem_map, List.mem_filter, beq_iff_eq, and_assoc]

/-- An entry for an operation that the service owns is bound to that operation's route. -/
theorem bindEntry_of_owned {entry : HandlerEntry Effect} (h : entry.pair ∈ ownedPairs reg service) :
    ∃ r : SubjectRoute,
      bindEntry reg service entry = .ok { route := r.toServiceRoute, entry } := by
  obtain ⟨r, hr, howner, hpair⟩ := mem_ownedPairs.mp h
  obtain ⟨hresource, hoperation⟩ := Prod.mk.inj hpair
  have hfound : reg.findRoute entry.resource entry.operation = some r :=
    Registry.findRoute_eq_some.mpr ⟨hr, hresource, hoperation⟩
  refine ⟨r, ?_⟩
  simp only [bindEntry, hfound, howner, ne_eq, not_true_eq_false, if_false]

theorem bindEntries_of_owned {handlers : List (HandlerEntry Effect)}
    (h : ∀ entry ∈ handlers, entry.pair ∈ ownedPairs reg service) :
    ∃ bindings, bindEntries reg service handlers = .ok bindings := by
  induction handlers with
  | nil => exact ⟨[], rfl⟩
  | cons entry handlers ih =>
      obtain ⟨r, hr⟩ := bindEntry_of_owned (h entry List.mem_cons_self)
      obtain ⟨bindings, hbindings⟩ := ih fun e he => h e (List.mem_cons_of_mem _ he)
      exact ⟨_, by rw [bindEntries, hr, hbindings]⟩

/-- The bindings keep the handlers they were made of, in their order. -/
theorem entries_of_bindEntries {handlers : List (HandlerEntry Effect)}
    {bindings : List (Binding Effect)} (h : bindEntries reg service handlers = .ok bindings) :
    bindings.map (·.entry) = handlers := by
  induction handlers generalizing bindings with
  | nil =>
      obtain rfl := Except.ok.inj h
      rfl
  | cons entry handlers ih =>
      rw [bindEntries] at h
      split at h
      · cases h
      · rename_i b hb
        split at h
        · cases h
        · rename_i bs hbs
          obtain rfl := Except.ok.inj h
          have hentry : b.entry = entry := by
            unfold bindEntry at hb
            split at hb
            · cases hb
            · split at hb
              · cases hb
              · obtain rfl := Except.ok.inj hb
                rfl
          rw [List.map_cons, ih hbs, hentry]

/-- A runtime that boots has bound each handler it was given, in order. -/
theorem entries_of_defineService {handlers : List (HandlerEntry Effect)}
    {rt : ServiceRuntime reg Effect} (h : defineService reg service handlers = .ok rt) :
    rt.bindings.map (·.entry) = handlers := by
  unfold defineService at h
  split at h
  · cases h
  · rename_i bindings hbind
    split at h
    · obtain rfl := Except.ok.inj h
      exact entries_of_bindEntries hbind
    · cases h

/-- A binding of a booted service serves the operation of its own handler, and no other. -/
theorem ServiceRuntime.serves_iff {rt : ServiceRuntime reg Effect} {b : Binding Effect}
    (hb : b ∈ rt.bindings) (pair : ResourceKey × Operation) :
    b.serves pair.1 pair.2 = true ↔ b.entry.pair = pair := by
  obtain ⟨r, -, -, hroute, hresource, hoperation⟩ := rt.bound b hb
  have hsame : b.route.resource = b.entry.resource ∧ b.route.operation = b.entry.operation := by
    rw [hroute, hresource, hoperation]
    exact ⟨rfl, rfl⟩
  rw [Binding.serves, Bool.and_eq_true, beq_iff_eq, beq_iff_eq, hsame.1, hsame.2,
    HandlerEntry.pair, Prod.ext_iff]

/-- Where the handlers cover every operation the service owns, none is left unimplemented.
-/
theorem unimplemented_of_covers {handlers : List (HandlerEntry Effect)}
    (h : CoversOwned reg service handlers) {bindings : List (Binding Effect)}
    (hbind : bindEntries reg service handlers = .ok bindings) :
    unimplemented reg service bindings = [] := by
  apply List.filter_eq_nil_iff.mpr
  intro r hr hmissing
  rw [Bool.and_eq_true, beq_iff_eq, Bool.not_eq_true', List.any_eq_false] at hmissing
  obtain ⟨entry, hentry, hpair⟩ :=
    List.mem_map.mp ((h r.pair).mpr (mem_ownedPairs.mpr ⟨r, hr, hmissing.1, rfl⟩))
  rw [← entries_of_bindEntries hbind] at hentry
  obtain ⟨b, hb, rfl⟩ := List.mem_map.mp hentry
  obtain ⟨r', -, -, hroute, hresource, hoperation⟩ := bindEntries_ok hbind b hb
  obtain ⟨hres, hop⟩ := Prod.mk.inj hpair
  apply hmissing.2 b hb
  rw [Binding.serves, Bool.and_eq_true, beq_iff_eq, beq_iff_eq, hroute]
  exact ⟨hresource.symm.trans hres, hoperation.symm.trans hop⟩

/-- **When a service boots**: its handlers cover what it owns, and nothing else. -/
theorem boots_iff {handlers : List (HandlerEntry Effect)} :
    Boots reg service handlers ↔ CoversOwned reg service handlers := by
  constructor
  · intro h pair
    obtain ⟨rt, hboot⟩ := h
    have hentries := entries_of_defineService hboot
    have hservice := defineService_service hboot
    rw [← hentries, List.map_map, List.mem_map, mem_ownedPairs]
    constructor
    · intro hpair
      obtain ⟨b, hb, rfl⟩ := hpair
      obtain ⟨r, hr, howner, -, hresource, hoperation⟩ := rt.bound b hb
      exact ⟨r, hr, howner.trans hservice, Prod.ext hresource.symm hoperation.symm⟩
    · intro howned
      obtain ⟨r, hr, howner, rfl⟩ := howned
      obtain ⟨b, hb, hserves⟩ := rt.complete r hr (howner.trans hservice.symm)
      exact ⟨b, hb, (rt.serves_iff hb r.pair).mp hserves⟩
  · intro h
    have howned : ∀ entry ∈ handlers, entry.pair ∈ ownedPairs reg service :=
      fun entry hentry => (h _).mp (List.mem_map_of_mem hentry)
    obtain ⟨bindings, hbind⟩ := bindEntries_of_owned howned
    obtain ⟨rt, hboot, -⟩ := defineService_ok hbind (unimplemented_of_covers h hbind)
    exact ⟨rt, hboot⟩

/-! ## When a boot is exact -/

theorem ServiceRuntime.mem_subjects (rt : ServiceRuntime reg Effect) (subject : JSString) :
    subject ∈ rt.routes.map (·.subject) ↔
      ∃ r ∈ reg.routes, r.owner = rt.service ∧ r.subject = subject := by
  simp only [routes, List.map_map, List.mem_map]
  constructor
  · intro h
    obtain ⟨b, hb, rfl⟩ := h
    obtain ⟨r, hr, howner, hroute, -, -⟩ := rt.bound b hb
    refine ⟨r, hr, howner, ?_⟩
    simp only [Function.comp_apply, hroute]
    rfl
  · intro h
    obtain ⟨r, hr, howner, rfl⟩ := h
    obtain ⟨b, hb, hserves⟩ := rt.complete r hr howner
    obtain ⟨-, hroute, -, -⟩ := route_of_serves hb hr hserves
    refine ⟨b, hb, ?_⟩
    simp only [Function.comp_apply, hroute]
    rfl

/-- The lookup of `handle` takes the binding at the place it finds. -/
theorem ServiceRuntime.find?_eq_foundAt (rt : ServiceRuntime reg Effect) (resource : ResourceKey)
    (operation : Operation) : rt.bindings.find? (·.serves resource operation) =
      (rt.foundAt resource operation).bind (rt.bindings[·]?) :=
  List.find?_eq_bind_findIdx?_getElem?

/-- Where each operation is handled once, the bindings listen on distinct subjects. -/
theorem ServiceRuntime.subjects_nodup {rt : ServiceRuntime reg Effect}
    (h : HandlesOnce (rt.bindings.map (·.entry))) : (rt.routes.map (·.subject)).Nodup := by
  rw [HandlesOnce, List.map_map] at h
  rw [routes, List.map_map]
  apply List.Nodup.map_on _ (List.Nodup.of_map _ h)
  intro b hb b' hb' hsubject
  obtain ⟨r, hr, -, hroute, hresource, hoperation⟩ := rt.bound b hb
  obtain ⟨r', hr', -, hroute', hresource', hoperation'⟩ := rt.bound b' hb'
  have hsame : r.subject = r'.subject := by
    simp only [Function.comp_apply, hroute, hroute'] at hsubject
    exact hsubject
  obtain ⟨hres, hop⟩ := Prod.mk.inj (pair_of_subject hr hr' hsame)
  have hpair : b.entry.pair = b'.entry.pair :=
    Prod.ext (hresource.trans (hres.trans hresource'.symm))
      (hoperation.trans (hop.trans hoperation'.symm))
  exact List.inj_on_of_nodup_map h hb hb' hpair

/-- Where no operation is bound twice, each binding is found under its own. -/
theorem ServiceRuntime.foundAt_pair {rt : ServiceRuntime reg Effect}
    (h : HandlesOnce (rt.bindings.map (·.entry))) {i : ℕ} (hi : i < rt.bindings.length) :
    rt.foundAt rt.bindings[i].entry.resource rt.bindings[i].entry.operation = some i := by
  rw [HandlesOnce, List.map_map] at h
  apply List.findIdx?_eq_some_iff_getElem.mpr
  refine ⟨hi, ?_, ?_⟩
  · exact (rt.serves_iff (List.getElem_mem hi) rt.bindings[i].entry.pair).mpr rfl
  · intro j hji hserves
    have hj : j < rt.bindings.length := by omega
    have hpair := (rt.serves_iff (List.getElem_mem hj) rt.bindings[i].entry.pair).mp hserves
    have hne := List.pairwise_iff_getElem.mp h j i (by simpa using hj) (by simpa using hi) hji
    rw [List.getElem_map, List.getElem_map] at hne
    exact hne hpair

/-- **Exact boots.**  A boot binds every owned operation exactly once, or is
refused, unless the handlers cover what the service owns and name one of its
operations twice. -/
theorem boot_is_exact_iff (reg : Registry) (service : ServiceName)
    (handlers : List (HandlerEntry Effect)) :
    BootIsExact reg service handlers ↔
      HandlesOnce handlers ∨ ¬ CoversOwned reg service handlers := by
  constructor
  · intro h
    by_cases hcovers : CoversOwned reg service handlers
    · exact .inl (h.1.mp (boots_iff.mpr hcovers)).1
    · exact .inr hcovers
  · intro h
    constructor
    · rw [boots_iff]
      constructor
      · intro hcovers
        exact ⟨h.resolve_right (not_not.mpr hcovers), hcovers⟩
      · exact fun hboth => hboth.2
    · intro rt hboot
      have hcovers := boots_iff.mp ⟨rt, hboot⟩
      have hentries := entries_of_defineService hboot
      have honce : HandlesOnce (rt.bindings.map (·.entry)) := by
        rw [hentries]
        exact h.resolve_right (not_not.mpr hcovers)
      refine ⟨rt.mem_subjects, rt.subjects_nodup honce, ?_⟩
      intro i hi
      rw [← hentries, List.length_map] at hi
      exact ⟨_, _, rt.foundAt_pair honce hi⟩

/-- A handler that does nothing. -/
def idleHandler (resource : ResourceKey) (operation : Operation) : HandlerEntry Unit :=
  { resource, operation, execute := fun _ _ => () }

/-- The audit service boots although two of its handlers are for its one operation. -/
theorem boot_not_exact : ¬ BootIsExact registry .audit
    [idleHandler (str "auditLog") .read, idleHandler (str "auditLog") .read] := by
  intro h
  have howned : ownedPairs registry .audit = [(str "auditLog", .read)] := by decide
  have hcovers : CoversOwned registry .audit
      [idleHandler (str "auditLog") .read, idleHandler (str "auditLog") .read] := by
    intro pair
    rw [howned]
    simp [idleHandler, HandlerEntry.pair]
  obtain ⟨honce, -⟩ := h.1.mp (boots_iff.mpr hcovers)
  rw [HandlesOnce, List.map_cons, List.nodup_cons] at honce
  exact honce.1 List.mem_cons_self

end Guardrail
