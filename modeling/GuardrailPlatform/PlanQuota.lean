import GuardrailPlatform.EntitlementsCache
import GuardrailPlatform.Interleaving
import GuardrailPlatform.TenantIsolation
import Mathlib.Algebra.BigOperators.Group.Finset.Piecewise
import Mathlib.Algebra.Order.BigOperators.Group.Finset
import Mathlib.Data.Rat.Floor

/-!
# The plan quota

`dispatch` decides a `project.create` on a snapshot of the organisation's usage
and nothing after it counts: the snapshot may have been cached, billing may have
failed, the meter runs behind the writes, and the write happens in another
process.

The system is the edge's cache, the requests in flight with what is left of
their handlers, the tables and the meter, and its events come in any order.  A
creation in flight may still add one row; so rows and creations in flight
together stay within the plan as long as every snapshot that a creation is
decided on tells when the plan is full.
-/

namespace Guardrail

open Js Trace
open Storage (Fault Outcome Program Table)
open Storage.Program (Adds)

/-! ## Counting projects -/

/-- The organisation's project rows. -/
def projectCount (organizationId : JSString) (tables : Tables) : ℕ :=
  (tables.project.select (ownsProject organizationId)).length

/-- The organisation has no more projects than before. -/
def AddsNone (organizationId : JSString) (s t : Tables) : Prop :=
  projectCount organizationId t ≤ projectCount organizationId s

/-- A store that is left as it is has gained no project. -/
theorem AddsNone.refl {organizationId : JSString} (tables : Tables) :
    AddsNone organizationId tables tables := Nat.le_refl _

section Counting

variable {organizationId : JSString} {ctx : ServiceContext} {input : Value} {ambient : Ambient}

/-- Updates keep every row in its organisation, so they change the count of no
organisation's projects. -/
theorem projectCount_update {id : JSString} {patch : ProjectService.Patch} {s : Tables}
    {project : Table ProjectRow ProjectRow.Clash}
    (hupdate : s.project.update (ProjectService.isProject ctx.orgId id) (patch.apply ambient.clock) =
      some project) :
    projectCount organizationId { s with project } = projectCount organizationId s := by
  have hkept : ∀ row, ownsProject organizationId (Table.setWhere
      (ProjectService.isProject ctx.orgId id) (patch.apply ambient.clock) row) =
        ownsProject organizationId row := by
    intro row
    unfold Table.setWhere
    split <;> rfl
  show ((project.rows).filter (ownsProject organizationId)).length = _
  rw [(Table.update_eq_some.mp hupdate).2, List.filter_map, List.length_map]
  exact congrArg List.length (List.filter_congr fun row _ => hkept row)

/-- A patch moves no project into an organisation, whichever of its fields it patches. -/
theorem update_adds_none (id : JSString) (patch : ProjectService.Patch) :
    (ProjectService.update ctx.orgId id patch ambient).Frames (AddsNone organizationId) :=
  update_frames fun _ _ hupdate => le_of_eq (projectCount_update hupdate)

/-- A deletion adds no project to any organisation, the caller's own included. -/
theorem remove_adds_none (id : JSString) :
    (ProjectService.remove ctx.orgId id).Frames (AddsNone organizationId) := by
  refine remove_frames fun s => ?_
  show ((s.project.delete _).select _).length ≤ _
  rw [Table.select_delete]
  exact List.length_filter_le _ _

/-- A creation adds one project to an organisation at the most, and none to the others. -/
theorem create_adds_one (row : ProjectRow) :
    (ProjectService.create row).Adds (projectCount organizationId) 1 := by
  refine Storage.Program.adds_perform fun s a t hstatement => ?_
  obtain ⟨project, hinsert, hresult⟩ := Option.map_eq_some_iff.mp hstatement
  obtain ⟨-, rfl⟩ := Prod.mk.inj hresult
  show (project.rows.filter _).length ≤ (s.project.rows.filter _).length + 1
  rw [(Table.insert_eq_some.mp hinsert).2, List.filter_cons]
  split
  · exact le_refl _
  · exact Nat.le_succ _

/-- A creation adds no project to an organisation it is not for. -/
theorem create_adds_none {row : ProjectRow} (h : row.organizationId ≠ organizationId) :
    (ProjectService.create row).Frames (AddsNone organizationId) := by
  refine (create_keepsOthers rfl).mono fun s t hkeeps => ?_
  rw [AddsNone, projectCount, projectCount, (hkeeps organizationId h.symm).project]

/-- A handler adds what its logic adds: the two parses around it write nothing. -/
theorem handlerFor_adds {formats : Formats} {flatten : ResourceKey → Operation → Value → Value}
    {resource : ResourceKey} {operation : Operation} {run : Logic} {payload : Value} {n : ℕ}
    (hrun : ∀ input, (run ctx input ambient).Adds (projectCount organizationId) n) :
    ((handlerFor formats flatten resource operation run).execute ctx payload ambient).Adds
      (projectCount organizationId) n := by
  apply handlerFor_cases (motive := fun program => program.Adds (projectCount organizationId) n)
  · intro error
    trivial
  · intro input _
    exact (hrun input).bind (n := 0) fun output => (frames_parseOutput _ output).adds

/-- `project.create` adds one project to the caller's organisation and none to
another. -/
theorem projectCreate_adds :
    (projectCreate ctx input ambient).Adds (projectCount organizationId)
      (if ctx.orgId = organizationId then 1 else 0) := by
  by_cases horg : ctx.orgId = organizationId
  · rw [if_pos horg]
    refine Adds.bind (m := 0) (n := 1) ?_ fun clash => ?_
    · exact (Program.Frames.query (@AddsNone.refl organizationId) _).adds
    · split
      · trivial
      · refine (create_adds_one _).bind (n := 0) fun created => ?_
        cases created <;> trivial
  · rw [if_neg horg]
    exact (projectCreate_frames AddsNone.refl (create_adds_none horg)).adds

/-- **One row a creation**: a handler of the service adds one row to its caller's
organisation if it creates, and else none. -/
theorem projectHandlers_add {formats : Formats}
    {flatten : ResourceKey → Operation → Value → Value} {entry : HandlerEntry Handling}
    (hentry : entry ∈ projectHandlers formats flatten) (payload : Value) :
    (entry.execute ctx payload ambient).Adds (projectCount organizationId)
      (if entry.operation = .create ∧ ctx.orgId = organizationId then 1 else 0) := by
  simp only [projectHandlers, List.mem_cons, List.not_mem_nil, or_false] at hentry
  rcases hentry with rfl | rfl | rfl | rfl
  · exact handlerFor_adds fun _ => (projectRead_frames AddsNone.refl _).adds
  · have hiff : (handlerFor formats flatten (str "project") .create projectCreate).operation =
        .create ∧ ctx.orgId = organizationId ↔ ctx.orgId = organizationId := and_iff_right rfl
    simp only [hiff]
    exact handlerFor_adds fun _ => projectCreate_adds
  · exact handlerFor_adds fun _ => (projectUpdate_frames (update_adds_none _ _)).adds
  · exact handlerFor_adds fun _ => (projectDelete_frames (remove_adds_none _)).adds

end Counting

/-! ## The system -/

/-- A usage, as the plan gate compares it with a limit: of a fraction the next whole
number, which with a whole request exceeds the limit exactly where the fraction does. -/
def comparedUsage (used : Finite) : ℤ := used.toInt?.getD ⌈used.value⌉

/-- Rounding a fractional usage up decides the comparison as the fraction would. -/
theorem lt_comparedUsage_add {used : Finite} {limit requested : ℤ} :
    limit < comparedUsage used + requested ↔ (limit : ℚ) < used.value + requested := by
  have hceil : comparedUsage used = ⌈used.value⌉ := by
    unfold comparedUsage
    cases hwhole : used.toInt? with
    | none => rfl
    | some z => rw [Finite.value_of_toInt? hwhole, Int.ceil_intCast, Option.getD_some]
  rw [hceil, ← sub_lt_iff_lt_add, Int.lt_ceil, Int.cast_sub, sub_lt_iff_lt_add]

/-- A snapshot, as the plan gate reads it. -/
def snapshotOf (value : Value) : Entitlements :=
  { plan := value.text (str "plan")
    usage := fun resource =>
      match (value.member? (str "usage")).bind (·.member? resource) with
      | some (.number (.finite used)) => some (comparedUsage used)
      | _ => none }

/-- The projects a snapshot counts. -/
def projectsUsed (entitlements : Entitlements) : ℤ := (entitlements.usage (str "project")).getD 0

/-- A request whose envelope was sent, and what is left of its handler. -/
structure SentRequest where
  operation : Operation
  orgId : JSString
  rest : Storing Value

def SentRequest.creates (organizationId : JSString) (request : SentRequest) : Bool :=
  request.operation == .create && request.orgId == organizationId

structure QuotaState where
  edge : Edge
  /-- What `deps.entitlements` has returned: a dispatch goes on with one of these. -/
  returned : List (JSString × Value)
  tables : Tables
  requests : ℕ → SentRequest
  /-- The calls of the requests that are in flight. -/
  live : Finset ℕ
  /-- An organisation for each consumed unit that was announced and not yet metered. -/
  announced : List JSString
  /-- The meter. -/
  metered : JSString → ℕ

inductive QuotaEvent
  /-- `deps.entitlements` is called: the cache answers, or billing is asked. -/
  | ask (now : ℤ) (orgId requestId : JSString)
  | settle (now : ℤ) (call : BillingCall) (response : Response)
  | invalidate (orgId : JSString)
  /-- `dispatch` goes on with a snapshot, up to the envelope it sends. -/
  | dispatch (call : ℕ) (entry : HandlerEntry Handling) (args : DispatchArgs) (deps : DepsAnswers)
      (snapshot : Value) (ambient : Ambient)
  /-- A handler makes its next storage call; if it ends, its event is published or not. -/
  | turn (call : ℕ) (fault : Option Fault) (published : Bool)
  /-- A request is lost, or refused by the service's own gates. -/
  | drop (call : ℕ)
  /-- One announced unit reaches the meter. -/
  | meter (orgId : JSString)

namespace QuotaState

/-- Nothing has been asked, and nothing is in flight. -/
def start (tables : Tables) (metered : JSString → ℕ) : QuotaState :=
  { edge := .start, returned := [], tables,
    requests := fun _ => { operation := .read, orgId := [], rest := .done .crashed },
    live := ∅, announced := [], metered }

/-- The organisation's creations that are in flight. -/
def creating (state : QuotaState) (organizationId : JSString) : ℕ :=
  (state.live.filter fun call => (state.requests call).creates organizationId = true).card

/-- The announcement of a handler that ended. -/
def announcements (request : SentRequest) (outcome : Outcome ServiceError Value)
    (published : Bool) : List JSString :=
  match outcome with
  | .returned _ =>
    if published && (registry.ruleFor (str "project") request.operation).any (·.consumes) then
      [request.orgId]
    else []
  | _ => []

def turn (state : QuotaState) (call : ℕ) (fault : Option Fault) (published : Bool) : QuotaState :=
  let request := state.requests call
  let next := request.rest.advance fault state.tables
  match next.1 with
  | .done outcome =>
    { state with
      tables := next.2
      live := state.live.erase call
      announced := announcements request outcome published ++ state.announced }
  | rest =>
    { state with
      tables := next.2
      requests := Function.update state.requests call { request with rest } }

section Steps

variable (crypto : Crypto) (secret : JSString) (formats : Formats)

/-- The request behind a call that passes steps 1 to 7. -/
def sentBy (entry : HandlerEntry Handling) (args : DispatchArgs) (deps : DepsAnswers)
    (ambient : Ambient) : Option SentRequest :=
  match prepare crypto secret registry (contractFor formats) args deps with
  | .error _ => none
  | .ok e =>
    match project e.payload with
    | .json p =>
      some
        { operation := args.operation, orgId := e.requestMeta.orgId,
          rest := entry.execute (contextOf e.requestMeta) p.toValue ambient }
    | _ => none

def step (state : QuotaState) : QuotaEvent → QuotaState
  | .ask now orgId requestId =>
    { state with
      edge := state.edge.ask now orgId requestId
      returned :=
        match state.edge.hit now orgId with
        | some value => (orgId, value) :: state.returned
        | none => state.returned }
  | .settle now call response =>
    let settled := state.edge.settle crypto secret registry now call response
    { state with edge := settled.2, returned := (call.orgId, settled.1) :: state.returned }
  | .invalidate orgId => { state with edge := state.edge.invalidate orgId }
  | .dispatch call entry args deps _ ambient =>
    match sentBy crypto secret formats entry args deps ambient with
    | none => state
    | some request =>
      { state with
        requests := Function.update state.requests call request
        live := insert call state.live }
  | .turn call fault published => state.turn call fault published
  | .drop call => { state with live := state.live.erase call }
  | .meter orgId =>
    { state with
      announced := state.announced.erase orgId
      metered := Function.update state.metered orgId (state.metered orgId + 1) }

/-- After a history, newest event first. -/
def after (start : QuotaState) : List QuotaEvent → QuotaState
  | [] => start
  | event :: history => (after start history).step crypto secret formats event

/-- A usable answer of billing: the plan, and what the meter has counted at most. -/
structure Reports (plan : JSString → PlanKey) (metered : JSString → ℕ) (orgId : JSString)
    (value : Value) : Prop where
  plan : (snapshotOf value).plan = plan orgId
  usage : projectsUsed (snapshotOf value) ≤ metered orgId

/-- What can happen in a state, where no organisation changes its plan. -/
def Allowed (flatten : ResourceKey → Operation → Value → Value) (plan : JSString → PlanKey)
    (state : QuotaState) : QuotaEvent → Prop
  | .settle now call response =>
    call ∈ state.edge.pending ∧ now ≤ call.requestedAt + billingTimeoutMs ∧
      ∀ value, usableEntitlements crypto secret registry call response = some value →
        Reports plan state.metered call.orgId value
  | .dispatch call entry args deps snapshot _ =>
    call ∉ state.live ∧ entry ∈ projectHandlers formats flatten ∧
      entry.resource = args.resource ∧ entry.operation = args.operation ∧
      deps.entitlements = snapshotOf snapshot ∧
      ∀ identity, deps.identity = some identity → (identity.orgId, snapshot) ∈ state.returned
  | .turn call _ _ => call ∈ state.live
  | .drop call => call ∈ state.live
  | .meter orgId => orgId ∈ state.announced
  | _ => True

end Steps

/-- Where a creation is sent and rows and creations in flight fill the plan, the
snapshot it is decided on says that it is full. -/
def Current (crypto : Crypto) (secret : JSString) (formats : Formats) (organizationId : JSString)
    (limit : ℤ) (state : QuotaState) : QuotaEvent → Prop
  | .dispatch _ entry args deps _ ambient =>
    ∀ request, sentBy crypto secret formats entry args deps ambient = some request →
      request.creates organizationId = true →
      limit ≤ projectCount organizationId state.tables + state.creating organizationId →
      limit ≤ projectsUsed deps.entitlements
  | _ => True

/-- A snapshot that counts the rows and the creations in flight is current. -/
theorem current_of_counted {crypto : Crypto} {secret : JSString} {formats : Formats}
    {organizationId : JSString} {limit : ℤ} {state : QuotaState} {call : ℕ} {entry : HandlerEntry Handling} {args : DispatchArgs} {deps : DepsAnswers} {snapshot : Value}
    {ambient : Ambient}
    (h : (projectCount organizationId state.tables + state.creating organizationId : ℤ) ≤
      projectsUsed deps.entitlements) :
    Current crypto secret formats organizationId limit state
      (.dispatch call entry args deps snapshot ambient) :=
  fun _ _ _ hfull => hfull.trans h

/-! ## What the edge hands out -/

section Runs

variable {crypto : Crypto} {secret : JSString} {formats : Formats}
  {flatten : ResourceKey → Operation → Value → Value} {plan : JSString → PlanKey}
  {organizationId : JSString} {limit : ℤ} {state : QuotaState}

/-- Every snapshot names its organisation's plan, or is the default. -/
structure Honest (plan : JSString → PlanKey) (state : QuotaState) : Prop where
  cache : ∀ orgId entry, state.edge.cache orgId = some entry →
    (snapshotOf entry.value).plan = plan orgId
  returned : ∀ answer ∈ state.returned,
    (snapshotOf answer.2).plan = plan answer.1 ∨ answer.2 = emptySnapshot registry

/-- A turn of a handler leaves the gateway's cache and answers alone. -/
theorem turn_edge (state : QuotaState) (call : ℕ) (fault : Option Fault) (published : Bool) :
    (state.turn call fault published).edge = state.edge ∧
      (state.turn call fault published).returned = state.returned := by
  unfold turn
  dsimp only
  split
  · exact ⟨rfl, rfl⟩
  · exact ⟨rfl, rfl⟩

/-- Dispatching a call leaves the gateway's cache and the answers it got as they are. -/
theorem dispatch_edge (state : QuotaState) (call : ℕ) (entry : HandlerEntry Handling)
    (args : DispatchArgs) (deps : DepsAnswers) (snapshot : Value) (ambient : Ambient) :
    (state.step crypto secret formats (.dispatch call entry args deps snapshot ambient)).edge =
        state.edge ∧
      (state.step crypto secret formats (.dispatch call entry args deps snapshot ambient)).returned =
        state.returned := by
  rw [step]
  split
  · exact ⟨rfl, rfl⟩
  · exact ⟨rfl, rfl⟩

/-- A hit answers with the value of the organisation's entry in the cache. -/
theorem entry_of_hit {edge : Edge} {now : ℤ} {orgId : JSString} {value : Value}
    (h : edge.hit now orgId = some value) :
    ∃ entry, edge.cache orgId = some entry ∧ entry.value = value := by
  unfold Edge.hit at h
  split at h
  · rename_i entry hentry
    obtain ⟨-, hvalue⟩ := Option.ite_none_right_eq_some.mp h
    exact ⟨entry, hentry, Option.some.inj hvalue⟩
  · cases h

/-- Asking for entitlements makes up no plan, whether it hits or not. -/
theorem honest_ask (h : Honest plan state) (now : ℤ) (orgId requestId : JSString) :
    Honest plan (state.step crypto secret formats (.ask now orgId requestId)) := by
  constructor
  · intro org entry hentry
    rw [step, cache_ask] at hentry
    exact h.cache org entry hentry
  · intro answer hanswer
    rw [step] at hanswer
    dsimp only at hanswer
    split at hanswer
    · rename_i value hhit
      obtain ⟨entry, hentry, rfl⟩ := entry_of_hit hhit
      rcases List.mem_cons.mp hanswer with rfl | hanswer
      · exact .inl (h.cache orgId entry hentry)
      · exact h.returned answer hanswer
    · exact h.returned answer hanswer

/-- What a call settles with is billing's answer, or the default and nothing cached. -/
theorem honest_settle (h : Honest plan state) {now : ℤ} {call : BillingCall} {response : Response}
    (hreports : ∀ value, usableEntitlements crypto secret registry call response = some value →
      Reports plan state.metered call.orgId value) :
    Honest plan (state.step crypto secret formats (.settle now call response)) := by
  cases husable : usableEntitlements crypto secret registry call response with
  | none =>
      obtain ⟨hvalue, hcache⟩ := @settle_of_unusable _ _ _ state.edge now _ _ husable
      constructor
      · intro orgId entry hentry
        rw [step] at hentry
        dsimp only at hentry
        rw [hcache] at hentry
        exact h.cache orgId entry hentry
      · intro answer hanswer
        rcases List.mem_cons.mp hanswer with rfl | hanswer
        · exact .inr hvalue
        · exact h.returned answer hanswer
  | some value =>
      obtain ⟨hvalue, hcache⟩ := @settle_of_usable _ _ _ state.edge now _ _ _ husable
      have hplan := (hreports value husable).plan
      constructor
      · intro orgId entry hentry
        rw [step] at hentry
        dsimp only at hentry
        rw [hcache] at hentry
        by_cases horg : orgId = call.orgId
        · subst horg
          rw [Function.update_self] at hentry
          obtain rfl := Option.some.inj hentry
          exact hplan
        · rw [Function.update_of_ne horg] at hentry
          exact h.cache orgId entry hentry
      · intro answer hanswer
        rcases List.mem_cons.mp hanswer with rfl | hanswer
        · left
          show (snapshotOf (state.edge.settle crypto secret registry now call response).1).plan = _
          rw [hvalue]
          exact hplan
        · exact h.returned answer hanswer

/-- Every event of an allowed run keeps the snapshots that the gateway holds honest. -/
theorem honest_next (h : Honest plan state) {event : QuotaEvent}
    (hallowed : state.Allowed crypto secret formats flatten plan event) :
    Honest plan (state.step crypto secret formats event) := by
  cases event with
  | ask now orgId requestId => exact honest_ask h now orgId requestId
  | settle now call response => exact honest_settle h hallowed.2.2
  | invalidate dropped =>
      refine ⟨fun orgId entry hentry => ?_, h.returned⟩
      by_cases horg : orgId = dropped
      · subst horg
        simp only [step, Edge.invalidate, Function.update_self] at hentry
        cases hentry
      · simp only [step, Edge.invalidate, Function.update_of_ne horg] at hentry
        exact h.cache orgId entry hentry
  | dispatch call entry args deps snapshot ambient =>
      obtain ⟨hedge, hreturned⟩ := @dispatch_edge crypto secret formats state call entry args deps
        snapshot ambient
      exact ⟨by rw [hedge]; exact h.cache, by rw [hreturned]; exact h.returned⟩
  | turn call fault published =>
      obtain ⟨hedge, hreturned⟩ := turn_edge state call fault published
      exact ⟨by rw [step, hedge]; exact h.cache, by rw [step, hreturned]; exact h.returned⟩
  | drop call => exact ⟨h.cache, h.returned⟩
  | meter orgId => exact ⟨h.cache, h.returned⟩

/-! ## The gate -/

/-- A request that consumes and passes the gate fits the limit by its snapshot, with one
more used. -/
theorem room_of_planGate {rule : OperationRule} {entitlements : Entitlements} {resource : ResourceKey}
    (hconsumes : rule.consumes = true)
    (hlimit : registry.limitFor resource entitlements.plan = .atMost limit)
    (h : planGate registry resource rule entitlements = none) :
    (entitlements.usage resource).getD 0 + 1 ≤ limit := by
  unfold planGate Registry.checkResourceAccess at h
  rw [if_pos hconsumes, hlimit] at h
  dsimp only at h
  by_cases hfull : (entitlements.usage resource).getD 0 + 1 > limit
  · rw [if_pos hfull] at h
    cases h
  · exact not_lt.mp hfull

theorem limit_pos {key : PlanKey} (h : registry.limitFor (str "project") key = .atMost limit) :
    0 < limit := by
  have hlimits : registry.limitFor (str "project") key =
      ((limitsOf (.atMost 2) (.atMost 25) .unlimited).lookup key).getD .notIncluded := rfl
  rw [hlimits] at h
  cases hlookup : (limitsOf (.atMost 2) (.atMost 25) .unlimited).lookup key with
  | none =>
      rw [hlookup] at h
      cases h
  | some found =>
      rw [hlookup, Option.getD_some] at h
      subst h
      have hmem := mem_of_lookup hlookup
      simp only [limitsOf, List.mem_cons, List.not_mem_nil, or_false, Prod.mk.injEq,
        Limit.atMost.injEq, reduceCtorEq, and_false] at hmem
      omega

/-- A request that was sent was signed by `prepare`, and runs the handler on its meta and on
its payload's JSON. -/
theorem sentBy_eq_some {entry : HandlerEntry Handling} {args : DispatchArgs} {deps : DepsAnswers}
    {ambient : Ambient} {request : SentRequest}
    (h : sentBy crypto secret formats entry args deps ambient = some request) :
    ∃ e p, prepare crypto secret registry (contractFor formats) args deps = .ok e ∧
      project e.payload = .json p ∧ request = ⟨args.operation, e.requestMeta.orgId,
        entry.execute (contextOf e.requestMeta) p.toValue ambient⟩ := by
  unfold sentBy at h
  split at h
  · cases h
  · rename_i e hprepare
    split at h
    · rename_i p hproject
      exact ⟨e, p, hprepare, hproject, (Option.some.inj h).symm⟩
    · cases h

/-- **Room.**  A creation that is sent on a current snapshot finds a free place. -/
theorem room_of_sent (hlimit : registry.limitFor (str "project") (plan organizationId) = .atMost limit)
    (hhonest : Honest plan state) {call : ℕ} {entry : HandlerEntry Handling} {args : DispatchArgs}
    {deps : DepsAnswers} {snapshot : Value} {ambient : Ambient} {request : SentRequest}
    (hallowed : state.Allowed crypto secret formats flatten plan
      (.dispatch call entry args deps snapshot ambient))
    (hcurrent : Current crypto secret formats organizationId limit state
      (.dispatch call entry args deps snapshot ambient))
    (hsent : sentBy crypto secret formats entry args deps ambient = some request)
    (hcreates : request.creates organizationId = true) :
    (projectCount organizationId state.tables + state.creating organizationId + 1 : ℤ) ≤ limit := by
  have hused := hcurrent request hsent hcreates
  obtain ⟨e, p, hprepare, -, rfl⟩ := sentBy_eq_some hsent
  obtain ⟨identity, rule, hp⟩ := prepared_of_prepare hprepare
  obtain ⟨-, hentry, hresource, -, hentitlements, hreturned⟩ := hallowed
  rw [SentRequest.creates, Bool.and_eq_true, beq_iff_eq, beq_iff_eq] at hcreates
  obtain ⟨hcreate, horg⟩ := hcreates
  have hproject : args.resource = str "project" := by
    rw [← hresource]
    simp only [projectHandlers, List.mem_cons, List.not_mem_nil, or_false] at hentry
    rcases hentry with rfl | rfl | rfl | rfl <;> rfl
  have hidentity : identity.orgId = organizationId := by
    rw [← horg, hp.requestMeta]
    rfl
  have hconsumes : rule.consumes = true := by
    have hrule := hp.declared
    rw [hproject, show args.operation = .create from hcreate] at hrule
    obtain rfl := Option.some.inj hrule
    rfl
  have hgate := hp.inPlan
  rw [hproject] at hgate
  by_contra hfull
  replace hused := hused (by omega)
  have hplan := hhonest.returned _ (hreturned identity hp.identified)
  dsimp only at hplan
  rcases hplan with hplan | hempty
  · have hroom := room_of_planGate hconsumes (by rw [hentitlements, hplan, hidentity, hlimit]) hgate
    unfold projectsUsed at hused
    omega
  · have hpos := limit_pos hlimit
    have hnone : projectsUsed deps.entitlements = 0 := by
      rw [hentitlements, hempty]
      rfl
    omega

/-! ## Rows, and what is in flight -/

/-- A place for each creation of the organisation. -/
def place (organizationId : JSString) (request : SentRequest) : ℕ :=
  if request.creates organizationId then 1 else 0

/-- `budget` bounds what each request in flight may still add. -/
def Budgeted (organizationId : JSString) (state : QuotaState) (budget : ℕ → ℕ) : Prop :=
  ∀ call ∈ state.live,
    (state.requests call).rest.Adds (projectCount organizationId) (budget call) ∧
      budget call ≤ place organizationId (state.requests call)

/-- The rows, and all that may still be added to them, are within the limit. -/
def Within (organizationId : JSString) (limit : ℤ) (state : QuotaState) : Prop :=
  ∃ budget, Budgeted organizationId state budget ∧
    ((projectCount organizationId state.tables + ∑ call ∈ state.live, budget call : ℕ) : ℤ) ≤ limit

/-- What the invariant is for: the organisation's projects are within the limit. -/
theorem count_le_of_within (h : Within organizationId limit state) :
    (projectCount organizationId state.tables : ℤ) ≤ limit := by
  obtain ⟨budget, -, hsum⟩ := h
  omega

theorem sum_le_creating {budget : ℕ → ℕ} (h : Budgeted organizationId state budget) :
    ∑ call ∈ state.live, budget call ≤ state.creating organizationId := by
  rw [creating, Finset.card_filter]
  exact Finset.sum_le_sum fun call hcall => (h call hcall).2

/-- A turn spends what its call may still add, so the bound is kept. -/
theorem within_turn (h : Within organizationId limit state) {call : ℕ} (hlive : call ∈ state.live)
    (fault : Option Fault) (published : Bool) :
    Within organizationId limit (state.turn call fault published) := by
  obtain ⟨budget, hbudget, hsum⟩ := h
  obtain ⟨hadds, hplace⟩ := hbudget call hlive
  obtain ⟨left, hleft, hspent, hrest⟩ := hadds.advance fault state.tables
  have hsplit := Finset.add_sum_erase state.live budget hlive
  unfold turn
  dsimp only
  split
  · refine ⟨budget, fun other hother => hbudget other (Finset.mem_of_mem_erase hother), ?_⟩
    dsimp only
    omega
  · refine ⟨Function.update budget call left, ?_, ?_⟩
    · intro other hother
      by_cases hother' : other = call
      · subst hother'
        dsimp only
        rw [Function.update_self, Function.update_self]
        exact ⟨hrest, hleft.trans hplace⟩
      · dsimp only
        rw [Function.update_of_ne hother', Function.update_of_ne hother']
        exact hbudget other hother
    · dsimp only
      rw [Finset.sum_update_of_mem hlive, Finset.sdiff_singleton_eq_erase]
      omega

/-- A call that is dropped adds nothing more, so the bound is kept. -/
theorem within_drop (h : Within organizationId limit state) (call : ℕ) :
    Within organizationId limit { state with live := state.live.erase call } := by
  obtain ⟨budget, hbudget, hsum⟩ := h
  refine ⟨budget, fun other hother => hbudget other (Finset.mem_of_mem_erase hother), ?_⟩
  have hfewer : ∑ other ∈ state.live.erase call, budget other ≤ ∑ other ∈ state.live, budget other :=
    Finset.sum_le_sum_of_subset (Finset.erase_subset call state.live)
  dsimp only
  omega

/-- A request that is sent takes a place if it creates, and there is one. -/
theorem within_send (h : Within organizationId limit state) {call : ℕ} (hnew : call ∉ state.live)
    {request : SentRequest}
    (hadds : request.rest.Adds (projectCount organizationId) (place organizationId request))
    (hroom : request.creates organizationId = true →
      (projectCount organizationId state.tables + state.creating organizationId + 1 : ℤ) ≤ limit) :
    Within organizationId limit
      { state with
        requests := Function.update state.requests call request
        live := insert call state.live } := by
  obtain ⟨budget, hbudget, hsum⟩ := h
  refine ⟨Function.update budget call (place organizationId request), ?_, ?_⟩
  · intro other hother
    by_cases hother' : other = call
    · subst hother'
      dsimp only
      rw [Function.update_self, Function.update_self]
      exact ⟨hadds, le_refl _⟩
    · dsimp only
      rw [Function.update_of_ne hother', Function.update_of_ne hother']
      exact hbudget other (Finset.mem_of_mem_insert_of_ne hother hother')
  · have hothers : ∑ other ∈ state.live,
        Function.update budget call (place organizationId request) other =
          ∑ other ∈ state.live, budget other :=
      Finset.sum_update_of_notMem hnew budget _
    have htaken := sum_le_creating hbudget
    dsimp only
    rw [Finset.sum_insert hnew, Function.update_self, hothers, place]
    split
    · rename_i hcreates
      have hfree := hroom hcreates
      omega
    · omega

/-- Every event of an allowed run keeps the bound: a creation is let in only
where there is room for it. -/
theorem within_next (hlimit : registry.limitFor (str "project") (plan organizationId) = .atMost limit)
    (hhonest : Honest plan state) (h : Within organizationId limit state) {event : QuotaEvent}
    (hallowed : state.Allowed crypto secret formats flatten plan event)
    (hcurrent : Current crypto secret formats organizationId limit state event) :
    Within organizationId limit (state.step crypto secret formats event) := by
  cases event with
  | dispatch call entry args deps snapshot ambient =>
      rw [step]
      split
      · exact h
      · rename_i request hsent
        refine within_send h hallowed.1 ?_ fun hcreates =>
          room_of_sent hlimit hhonest hallowed hcurrent hsent hcreates
        obtain ⟨e, p, -, -, rfl⟩ := sentBy_eq_some hsent
        have hadds := @projectHandlers_add organizationId (contextOf e.requestMeta) ambient formats
          flatten entry hallowed.2.1 p.toValue
        refine hadds.mono ?_
        split
        · rename_i hboth
          have hcreates : SentRequest.creates organizationId ⟨args.operation, e.requestMeta.orgId,
              entry.execute (contextOf e.requestMeta) p.toValue ambient⟩ = true := by
            rw [SentRequest.creates, Bool.and_eq_true, beq_iff_eq, beq_iff_eq]
            exact ⟨hallowed.2.2.2.1 ▸ hboth.1, hboth.2⟩
          rw [place, if_pos hcreates]
        · exact Nat.zero_le _
  | turn call fault published => exact within_turn h hallowed fault published
  | drop call => exact within_drop h call
  | ask now orgId requestId => exact h
  | settle now call response => exact h
  | invalidate orgId => exact h
  | meter orgId => exact h

/-- **Plan quota.**  An organisation that starts within its plan stays there, in
every run in which no creation is sent on a snapshot that shows a free place where
rows and creations in flight have taken them all. -/
theorem quota_kept
    (hlimit : registry.limitFor (str "project") (plan organizationId) = .atMost limit)
    {tables : Tables} {metered : JSString → ℕ}
    (hstart : (projectCount organizationId tables : ℤ) ≤ limit) {history : List QuotaEvent}
    (hrun : Run (fun earlier event =>
      Allowed crypto secret formats flatten plan
          ((start tables metered).after crypto secret formats earlier) event ∧
        Current crypto secret formats organizationId limit
          ((start tables metered).after crypto secret formats earlier) event) history) :
    (projectCount organizationId
      ((start tables metered).after crypto secret formats history).tables : ℤ) ≤ limit := by
  have hinvariant : Honest plan ((start tables metered).after crypto secret formats history) ∧
      Within organizationId limit ((start tables metered).after crypto secret formats history) := by
    induction hrun with
    | start =>
        refine ⟨⟨nofun, nofun⟩, fun _ => 0, ?_, ?_⟩
        · intro call hcall
          cases hcall
        · simpa [after, start] using hstart
    | next _ hevent ih =>
        exact ⟨honest_next ih.1 hevent.1, within_next hlimit ih.1 ih.2 hevent.1 hevent.2⟩
  exact count_le_of_within hinvariant.2

end Runs

end QuotaState

/-! ## A snapshot behind, and one that is not -/

section Demonstration

open QuotaState

/-- `acme` has one project, and the free plan allows two. -/
def oneProject : Tables :=
  { (default : Tables) with
    project := ⟨[
      { id := str "p1", organizationId := str "acme", name := str "Launch", slug := str "one",
        description := none, createdById := str "ada", archivedAt := none,
        createdAt := .ofInstant epoch, updatedAt := .ofInstant epoch }],
      List.pairwise_singleton _ _⟩ }

/-- What billing says, with one project metered. -/
def freeAnswer : Json :=
  .object [(str "entitlements", .object [(str "plan", .string (str "free")),
    (str "usage", .object [(str "project", .number (.ofInt 1))])])]

/-- The snapshot in it. -/
def oneProjectSnapshot : Value :=
  .object [(str "plan", .string (str "free")),
    (str "usage", .object [(str "project", .number (.finite (.ofInt 1)))])]

def acmeStart : QuotaState := start oneProject fun _ => 1

/-- A call of `project.create` by an administrator of `acme`. -/
def creation (call : ℕ) (slug : JSString) : QuotaEvent :=
  .dispatch call (handlerFor roughFormats (fun _ _ _ => .null) (str "project") .create projectCreate)
    { requestId := str "request-3", resource := str "project", operation := .create,
      input := .object [(str "name", .string (str "Launch")), (str "slug", .string slug)] }
    { identity := some { userId := str "ada", orgId := str "acme", role := .admin }
      verdict := { ok := true, retryAfterSeconds := 0 }
      entitlements := snapshotOf oneProjectSnapshot
      issuedAt := 60 }
    oneProjectSnapshot { idleAmbient with uuid := fun _ => slug }

/-- Billing is asked and answers; the answer is cached. -/
def fetched (response : Response) : List QuotaEvent :=
  [.settle 40 acmeCall response, .ask 0 (str "acme") (str "request-1")]

/-- Two creations in the life of one snapshot. -/
def burst (response : Response) : List QuotaEvent :=
  .turn 1 none true :: .turn 1 none true :: .turn 0 none true :: .turn 0 none true ::
    creation 1 (str "three") :: creation 0 (str "two") ::
      .ask 50 (str "acme") (str "request-2") :: fetched response

/-- What can happen to `acme` on the free plan. -/
def acmeAllowed (history : List QuotaEvent) (event : QuotaEvent) : Prop :=
  Allowed .transparent (str "secret") roughFormats (fun _ _ _ => .null) (fun _ => str "free")
    (acmeStart.after .transparent (str "secret") roughFormats history) event

/-- The billing service's signed answer in the example is one that the gateway takes. -/
theorem freeAnswer_usable : ∃ response,
    usableEntitlements .transparent (str "secret") registry acmeCall response =
      some oneProjectSnapshot :=
  @usable_of_answered .transparent (str "secret") registry acmeCall freeAnswer _ (by decide) rfl rfl
    rfl

variable {response : Response}

/-- In the example the snapshot is honest when it is fetched, so the fetching is a run. -/
theorem fetched_run (husable : usableEntitlements .transparent (str "secret") registry acmeCall
    response = some oneProjectSnapshot) : Run acmeAllowed (fetched response) := by
  refine .next (.next .start trivial) ⟨List.mem_cons_self, by decide, ?_⟩
  intro value hvalue
  obtain rfl := Option.some.inj (husable.symm.trans hvalue)
  exact ⟨rfl, by decide⟩

/-- After the gateway has asked billing, that snapshot is among what it has returned. -/
theorem fetched_returned (husable : usableEntitlements .transparent (str "secret") registry acmeCall
    response = some oneProjectSnapshot) : (str "acme", oneProjectSnapshot) ∈
      (acmeStart.after .transparent (str "secret") roughFormats (fetched response)).returned := by
  have hvalue := (@settle_of_usable .transparent (str "secret") registry
    (Edge.start.ask 0 (str "acme") (str "request-1")) 40 acmeCall response _ husable).1
  have hhead : (str "acme", ((Edge.start.ask 0 (str "acme") (str "request-1")).settle .transparent
      (str "secret") registry 40 acmeCall response).1) ∈
      (acmeStart.after .transparent (str "secret") roughFormats (fetched response)).returned :=
    List.mem_cons_self
  rwa [hvalue] at hhead

/-- A creation by a new call is allowed on any snapshot that has been returned. -/
theorem creation_allowed {history : List QuotaEvent} {call : ℕ} {slug : JSString}
    (hnew : call ∉ (acmeStart.after .transparent (str "secret") roughFormats history).live)
    (hreturned : (str "acme", oneProjectSnapshot) ∈
      (acmeStart.after .transparent (str "secret") roughFormats history).returned) :
    acmeAllowed history (creation call slug) := by
  refine ⟨hnew, by simp [projectHandlers], rfl, rfl, rfl, ?_⟩
  intro identity hidentity
  obtain rfl := Option.some.inj hidentity
  exact hreturned

/-- Both creations are decided on the one project that billing counted, and the
organisation has three on a plan of two. -/
theorem quota_overshot :
    registry.limitFor (str "project") (str "free") = .atMost 2 ∧
      projectCount (str "acme") acmeStart.tables = 1 ∧
      ∃ history, Run acmeAllowed history ∧ ¬ (projectCount (str "acme")
        (acmeStart.after .transparent (str "secret") roughFormats history).tables : ℤ) ≤ 2 := by
  obtain ⟨response, husable⟩ := freeAnswer_usable
  have hreturned := fetched_returned husable
  have hasked : (str "acme", oneProjectSnapshot) ∈ (acmeStart.after .transparent (str "secret")
      roughFormats (.ask 50 (str "acme") (str "request-2") :: fetched response)).returned := by
    rw [after, step]
    dsimp only
    split
    · exact List.mem_cons_of_mem _ hreturned
    · exact hreturned
  have hcount : projectCount (str "acme")
      (acmeStart.after .transparent (str "secret") roughFormats (burst response)).tables = 3 := by
    rfl
  have hover : ¬ (projectCount (str "acme")
      (acmeStart.after .transparent (str "secret") roughFormats (burst response)).tables : ℤ) ≤ 2 := by
    rw [hcount]
    decide
  have hfirst : Run acmeAllowed (creation 0 (str "two") ::
      .ask 50 (str "acme") (str "request-2") :: fetched response) :=
    .next (.next (fetched_run husable) trivial) (creation_allowed (Finset.notMem_empty 0) hasked)
  have hsecond : Run acmeAllowed (creation 1 (str "three") :: creation 0 (str "two") ::
      .ask 50 (str "acme") (str "request-2") :: fetched response) := by
    have hidle : (1 : ℕ) ∉ insert 0 (∅ : Finset ℕ) := by decide
    exact .next hfirst (creation_allowed hidle hasked)
  have hlive : (0 : ℕ) ∈ insert 1 (insert 0 (∅ : Finset ℕ)) := by decide
  have hturned : Run acmeAllowed (.turn 0 none true :: .turn 0 none true ::
      creation 1 (str "three") :: creation 0 (str "two") ::
      .ask 50 (str "acme") (str "request-2") :: fetched response) :=
    .next (.next hsecond hlive) hlive
  have hlast : (1 : ℕ) ∈ (insert 1 (insert 0 (∅ : Finset ℕ))).erase 0 := by decide
  have hrun : Run acmeAllowed (burst response) := .next (.next hturned hlast) hlast
  exact ⟨rfl, rfl, burst response, hrun, hover⟩

/-- One creation on the fetched snapshot takes the one place that is free. -/
theorem creation_fits : ∃ response, (projectCount (str "acme") (acmeStart.after .transparent
    (str "secret") roughFormats (.turn 0 none true :: .turn 0 none true ::
      creation 0 (str "two") :: fetched response)).tables : ℤ) ≤ 2 := by
  obtain ⟨response, husable⟩ := freeAnswer_usable
  refine ⟨response, ?_⟩
  have hcurrent : Current .transparent (str "secret") roughFormats (str "acme") 2
      (acmeStart.after .transparent (str "secret") roughFormats (fetched response))
      (creation 0 (str "two")) :=
    current_of_counted (show (1 : ℤ) ≤ 1 from le_refl 1)
  have hfetched : Run (fun earlier event => acmeAllowed earlier event ∧
      Current .transparent (str "secret") roughFormats (str "acme") 2
        (acmeStart.after .transparent (str "secret") roughFormats earlier) event)
      (fetched response) := by
    cases fetched_run husable with
    | next hrun hsettle =>
        cases hrun with
        | next hrun hask => exact .next (.next .start ⟨hask, trivial⟩) ⟨hsettle, trivial⟩
  have hlive : (0 : ℕ) ∈ insert 0 (∅ : Finset ℕ) := by decide
  exact @quota_kept .transparent (str "secret") roughFormats (fun _ _ _ => .null)
    (fun _ => str "free") (str "acme") 2 rfl oneProject (fun _ => 1) (by decide) _
    (.next (.next (.next hfetched ⟨creation_allowed (Finset.notMem_empty 0)
      (fetched_returned husable), hcurrent⟩) ⟨hlive, trivial⟩) ⟨hlive, trivial⟩)

end Demonstration

end Guardrail
