import GuardrailPlatform.AuditTrail
import GuardrailPlatform.PlanQuota
import GuardrailPlatform.Refusals

/-!
# Metered usage

The plan gate reads an organisation's usage from Autumn, and Autumn knows what
the meter told it: one unit for each event of an operation that consumes.
`project.create` consumes, `project.delete` does not, and nothing ever takes a
unit back.

So a drained meter counts the rows that were created.  It counts the rows there
are exactly as long as none has been deleted.
-/

namespace Guardrail

open Js Trace
open Storage (Faults Outcome Table)
open Storage.Program (run_bind_of_silent run_call_returned run_frames run_perform_bind run_query_bind)

/-! ## What Autumn says -/

/-- `readUsage`: the features of a customer, by resource. -/
def readUsage (features : JSString → Option ℤ) (resource : ResourceKey) : Option ℤ :=
  ((registry.resource? resource).bind (·.featureId)).bind features

/-- The units tracked of a customer's feature. -/
def unitsOf (log : EventTable TrackedUnit) (customerId featureId : JSString) : ℕ :=
  ((log.filter fun old => old.body.customerId == customerId && old.body.featureId == featureId).map
    (·.body.value)).sum

/-- `track` adds its value to the usage of its feature, once for each idempotency
key.  A feature nothing was tracked of may be absent. -/
def AddsUp (log : EventTable TrackedUnit) (customerId : JSString)
    (features : JSString → Option ℤ) : Prop :=
  ∀ featureId, (features featureId).getD 0 = unitsOf log customerId featureId

/-! ## The platform at work -/

/-- The services, booted with their handlers. -/
structure Deployment (formats : Formats) (flatten : ResourceKey → Operation → Value → Value) where
  crypto : Crypto
  secret : JSString
  service : ServiceName → ServiceRuntime registry Handling
  booted : ∀ name, defineService registry name (handlersOf formats flatten name) = .ok (service name)

inductive MeterEvent
  /-- A service handles a message to its end, and publishes its event. -/
  | handled (d : Delivery) (ambient : Ambient) (faults : Faults) (outcome : PublishOutcome)
      (publishedAt : ℤ)
  /-- The meter receives a message. -/
  | consumed (subject : JSString) (raw : Json) (now : ℤ)

/-- How a message was handled, and what that left. -/
structure Performed where
  execution : Execution
  tables : Tables

namespace Deployment

variable {formats : Formats} {flatten : ResourceKey → Operation → Value → Value}
  (D : Deployment formats flatten) (organizationId : JSString)

def platform : Platform Handling where
  crypto := D.crypto
  secret := D.secret
  reg := registry
  contracts := contractFor formats
  service := D.service
  booted name := ⟨_, D.booted name⟩

/-- A message that passes the gates reaches its handler. -/
def perform (d : Delivery) (ambient : Ambient) (faults : Faults) (tables : Tables) : Performed :=
  match D.platform.screen d with
  | .refused .. => { execution := .crashed, tables }
  | .admitted b m payload =>
    let result := (b.entry.execute (contextOf m) payload ambient).run faults tables
    { execution := .ofOutcome result.1, tables := result.2 }

/-- The tables after a history, newest event first. -/
def tablesAfter (start : Tables) : List MeterEvent → Tables
  | [] => start
  | .handled d ambient faults _ _ :: earlier =>
    (D.perform d ambient faults (tablesAfter start earlier)).tables
  | .consumed .. :: earlier => tablesAfter start earlier

/-- What the streams and the meter see of an event. -/
def seen (tables : Tables) : MeterEvent → TrailEvent
  | .handled d ambient faults outcome publishedAt =>
    .handled d (D.perform d ambient faults tables).execution outcome publishedAt
  | .consumed subject raw now => .consumed .billingMeter subject raw now

def trail (start : Tables) : List MeterEvent → List TrailEvent
  | [] => []
  | event :: earlier => D.seen (D.tablesAfter start earlier) event :: trail start earlier

/-- A message for the projects service, whose event is not lost: where it changes
a table, its handler returns and the publish is acknowledged. -/
def Announced (tables : Tables) : MeterEvent → Prop
  | .handled d ambient faults outcome _ =>
    d.service = .projects ∧ ((D.perform d ambient faults tables).tables ≠ tables →
      outcome.returned = true ∧ ∃ data, (D.perform d ambient faults tables).execution = .returned data)
  | .consumed .. => True

/-- A run without batches and without lost events. -/
def MeteredRun (start : Tables) (history : List MeterEvent) : Prop :=
  Run (fun earlier event =>
    D.platform.TrailAllowed (D.trail start earlier) (D.seen (D.tablesAfter start earlier) event) ∧
    D.platform.Once (D.trail start earlier) (D.seen (D.tablesAfter start earlier) event) ∧
    D.Announced (D.tablesAfter start earlier) event) history

/-- If the event is a `project.delete` of the organisation that reaches the
tables, it names none of the organisation's projects. -/
def RemovesNone (tables : Tables) : MeterEvent → Prop
  | .handled d _ faults _ _ => ∀ b m payload input, D.platform.screen d = .admitted b m payload →
    m.operation = .delete → m.orgId = organizationId →
    (contractFor formats (str "project") .delete).input payload = some input →
    faults 0 ≠ some .lost →
    ∀ row ∈ tables.project.rows,
      ProjectService.isProject organizationId (input.text (str "id")) row = false
  | .consumed .. => True

/-- The usage that is read is the number of rows, and the gate says that a limit
is reached where the rows have reached it. -/
structure Counted (features : JSString → Option ℤ) (plan : PlanKey) (tables : Tables) : Prop where
  usage : (readUsage features (str "project")).getD 0 = projectCount organizationId tables
  gate : ∀ limit used nextPlan message,
    registry.checkResourceAccess (str "project") { plan, usage := readUsage features } 1 =
      .denied .limitReached limit used nextPlan message →
    ∃ n, limit = .atMost n ∧ n ≤ projectCount organizationId tables

end Deployment

/-! ## What a handler did -/

section Handlers

variable {ctx : ServiceContext} {input payload data : Value} {ambient : Ambient} {faults : Faults}
  {tables : Tables} {formats : Formats} {flatten : ResourceKey → Operation → Value → Value}

/-- A creation that returned has inserted its row, and written nothing else. -/
theorem projectCreate_returned
    (h : ((projectCreate ctx input ambient).run faults tables).1 = .returned data) :
    ∃ project, tables.project.insert (requestedProject ctx input ambient) = some project ∧
      ((projectCreate ctx input ambient).run faults tables).2 = { tables with project } := by
  obtain ⟨hread, -⟩ := run_call_returned h
  rw [projectCreate, ProjectService.bySlug, run_query_bind hread] at h ⊢
  split at h
  · cases h
  · rename_i hfree
    rw [if_neg hfree]
    obtain ⟨-, created, t, hstatement, hrun⟩ := run_call_returned h
    obtain ⟨project, hinsert, hresult⟩ := Option.map_eq_some_iff.mp hstatement
    obtain ⟨rfl, rfl⟩ := Prod.mk.inj hresult
    exact ⟨project, hinsert, congrArg Prod.snd hrun⟩

/-- A removal deletes the project it names, unless the statement that deletes it is lost. -/
theorem projectDelete_run :
    ((projectDelete ctx input ambient).run faults tables).2 =
      if faults 0 = some .lost then tables
      else { tables with
        project := tables.project.delete
          (ProjectService.isProject ctx.orgId (input.text (str "id"))) } := by
  have hquiet : ∀ (row : Option JSString) (faults : Faults) (t : Tables),
      ((removed row (serviceError .notFound (str "Project not found."))).run faults t).2 = t := by
    intro row faults t
    cases row <;> rfl
  cases hfault : faults 0 with
  | none =>
      rw [if_neg (by simp), projectDelete, ProjectService.remove, run_perform_bind hfault rfl]
      exact hquiet _ _ _
  | some fault =>
      rw [projectDelete, ProjectService.remove, Storage.Program.perform, Storage.Program.call_bind,
        Storage.Program.run, hfault]
      cases fault <;> rfl

/-- `execute` leaves the tables as the logic does, and returns only where that returns. -/
theorem execute_run {resource : ResourceKey} {operation : Operation} {run : Logic}
    (hinput : (contractFor formats resource operation).input payload = some input) :
    ((handlerFor formats flatten resource operation run).execute ctx payload ambient).run faults
        tables =
      (((run ctx input ambient).run faults tables).1.bind
          (outputOutcome (contractFor formats resource operation)),
        ((run ctx input ambient).run faults tables).2) := by
  rw [handlerFor_accepts hinput]
  exact run_bind_of_silent (parseOutput_eq _) _ _

/-- The organisation has as many projects as before. -/
def KeepsCount (organizationId : JSString) (s t : Tables) : Prop :=
  projectCount organizationId t = projectCount organizationId s

/-- A store that is left as it is has as many projects as before. -/
theorem KeepsCount.refl (organizationId : JSString) (s : Tables) : KeepsCount organizationId s s :=
  rfl

/-- A creation that answered has inserted a project of the caller's
organisation. -/
theorem create_returned
    (h : (((handlerFor formats flatten (str "project") .create projectCreate).execute ctx payload
      ambient).run faults tables).1 = .returned data) :
    ∃ row project, row.organizationId = ctx.orgId ∧ tables.project.insert row = some project ∧
      (((handlerFor formats flatten (str "project") .create projectCreate).execute ctx payload
        ambient).run faults tables).2 = { tables with project } := by
  cases hinput : (contractFor formats (str "project") .create).input payload with
  | none =>
      obtain ⟨error, hexecute⟩ := @handlerFor_rejects formats flatten _ _ projectCreate ctx payload
        ambient hinput
      rw [hexecute] at h
      cases h
  | some input =>
      rw [execute_run hinput] at h ⊢
      obtain ⟨answer, hanswer, -⟩ := Outcome.bind_eq_returned h
      obtain ⟨project, hinsert, hleft⟩ := projectCreate_returned hanswer
      exact ⟨_, project, rfl, hinsert, hleft⟩

/-- Only creations and removals of the organisation change how many projects it has. -/
theorem projectCount_kept {organizationId : JSString} {entry : HandlerEntry Handling}
    (hentry : entry ∈ projectHandlers formats flatten)
    (h : ctx.orgId = organizationId → entry.operation ≠ .create ∧ entry.operation ≠ .delete) :
    projectCount organizationId ((entry.execute ctx payload ambient).run faults tables).2 =
      projectCount organizationId tables := by
  have hframes : (entry.execute ctx payload ambient).Frames (KeepsCount organizationId) := by
    by_cases horg : ctx.orgId = organizationId
    · obtain ⟨hcreate, hdelete⟩ := h horg
      simp only [projectHandlers, List.mem_cons, List.not_mem_nil, or_false] at hentry
      rcases hentry with rfl | rfl | rfl | rfl
      · exact handlerFor_frames fun _ _ => projectRead_frames (KeepsCount.refl _) _
      · exact absurd rfl hcreate
      · exact handlerFor_frames fun _ _ => projectUpdate_frames
          (update_frames fun _ _ hupdate => projectCount_update hupdate)
      · exact absurd rfl hdelete
    · refine (projects_isolated hentry).keeps.mono fun s t hkeeps => ?_
      rw [KeepsCount, projectCount, projectCount,
        (hkeeps organizationId fun hsame => horg hsame.symm).project]
  exact run_frames (KeepsCount.refl _) (fun _ _ _ hst htu => htu.trans hst) hframes _ _

/-- Inserting a row of the organisation makes the count of its projects one more. -/
theorem projectCount_insert {row : ProjectRow} {project : Table ProjectRow ProjectRow.Clash}
    (hinsert : tables.project.insert row = some project) :
    projectCount row.organizationId { tables with project } =
      1 + projectCount row.organizationId tables := by
  have hown : ownsProject row.organizationId row = true := beq_self_eq_true _
  show ((project.rows).filter _).length = 1 + ((tables.project.rows).filter _).length
  rw [(Table.insert_eq_some.mp hinsert).2, List.filter_cons_of_pos hown, List.length_cons,
    Nat.add_comm]

/-- A deletion that finds a project of the organisation leaves it fewer of them. -/
theorem projectCount_delete {organizationId id : JSString} {row : ProjectRow}
    (hrow : row ∈ tables.project.rows)
    (hnamed : ProjectService.isProject organizationId id row = true) :
    projectCount organizationId { tables with
      project := tables.project.delete (ProjectService.isProject organizationId id) } <
        projectCount organizationId tables := by
  show ((tables.project.delete _).select _).length < (tables.project.select _).length
  rw [Table.select_delete]
  refine List.length_filter_lt_length_iff_exists.mpr ⟨row, ?_, by simp [hnamed]⟩
  exact List.mem_filter.mpr ⟨hrow, ownsProject_of_isProject hnamed⟩

end Handlers

/-! ## What an event adds to the meter -/

/-- Whatever event is on the stream was published for a request that succeeded, under its
id. -/
theorem Platform.success_of_key {Effect : Type*} {P : Platform Effect} {history : List TrailEvent}
    (h : P.OnceRun history) {entry : DedupLog.Entry JSString (JSString × Json)}
    (hentry : entry ∈ P.evtStream history) :
    ∃ m ∈ P.succeeded history, entry.key = eventId m.requestId := by
  have hmem := List.mem_map_of_mem
    (f := fun entry : DedupLog.Entry JSString (JSString × Json) =>
      (entry.key, P.consume entry.body.2 entry.body.1)) hentry
  rw [(Platform.OnceRun.streamInv h).events] at hmem
  obtain ⟨m, hm, hpair⟩ := List.mem_map.mp hmem
  exact ⟨m, (List.mem_filter.mp hm).1, (Prod.mk.inj hpair).1.symm⟩

/-- An execution that returned data is of a program that returned it. -/
theorem returned_of_ofOutcome {result : Outcome ServiceError Value} {data : Value}
    (h : Execution.ofOutcome result = .returned data) : result = .returned data := by
  cases result <;> cases h
  rfl

namespace Platform

variable {Effect : Type*} {P : Platform Effect} {d : Delivery} {b : Binding Effect} {m : RequestMeta}
  {payload : Value} {execution : Execution} {outcome : PublishOutcome} {publishedAt : ℤ}
  {history : List TrailEvent} {orgId : JSString} {resource : ResourceKey} {operation : Operation}

/-- A handled call that succeeded is one success more of its own operation. -/
theorem successes_of_ok (hscreen : P.screen d = .admitted b m payload)
    (hsucceeded : (P.settle b m execution outcome.returned).Succeeded) :
    P.successes (.handled d execution outcome publishedAt :: history) m.orgId m.resource
        m.operation =
      1 + P.successes history m.orgId m.resource m.operation := by
  obtain ⟨reply, hreply, hok⟩ := hsucceeded
  cases reply with
  | ok requestId signature data =>
      simp only [successes, succeeded, hscreen, hreply]
      rw [List.countP_cons_of_pos (by simp), Nat.add_comm]
  | refused => cases hok

/-- A handled call that did not succeed, or was another's, is no success to
count. -/
theorem successes_of_other (hscreen : P.screen d = .admitted b m payload)
    (hother : m.orgId = orgId → m.operation = operation →
      ¬ (P.settle b m execution outcome.returned).Succeeded) :
    P.successes (.handled d execution outcome publishedAt :: history) orgId resource operation =
      P.successes history orgId resource operation := by
  simp only [successes, succeeded, hscreen]
  split
  · rename_i requestId signature data hreply
    refine List.countP_cons_of_neg ?_
    simp only [Bool.and_eq_true, beq_iff_eq]
    intro h
    exact hother h.1.1 h.2 ⟨_, hreply, rfl⟩
  · rfl

end Platform

namespace Deployment

variable {formats : Formats} {flatten : ResourceKey → Operation → Value → Value}
  {D : Deployment formats flatten} {organizationId : JSString} {tables : Tables}
  {history : List TrailEvent} {d : Delivery} {ambient : Ambient} {faults : Faults}
  {outcome : PublishOutcome} {publishedAt : ℤ} {b : Binding Handling} {m : RequestMeta}
  {payload : Value}

/-- Successful creations of the organisation's projects, after an event. -/
def created (D : Deployment formats flatten) (organizationId : JSString)
    (history : List TrailEvent) : ℕ :=
  D.platform.successes history organizationId (str "project") .create

/-- What the projects service admits is an operation on projects, which one of its handlers
runs. -/
theorem entry_of_screen (hservice : d.service = .projects)
    (hscreen : D.platform.screen d = .admitted b m payload) :
    b.entry ∈ projectHandlers formats flatten ∧ m.resource = str "project" ∧
      b.entry.operation = m.operation := by
  obtain ⟨r, hpassed⟩ := passed_of_screen hscreen
  obtain ⟨hresource, hoperation⟩ := hpassed.entry
  have hentry := entry_of_defineService (D.booted d.service) b hpassed.bound.1
  rw [hservice] at hentry
  refine ⟨hentry, ?_, hoperation⟩
  rw [← hresource]
  simp only [handlersOf, projectHandlers, List.mem_cons, List.not_mem_nil, or_false] at hentry
  rcases hentry with h | h | h | h <;> rw [h] <;> rfl

/-- What an admitted delivery performs is its handler, run against the tables
under the faults. -/
theorem perform_of_screen (hscreen : D.platform.screen d = .admitted b m payload) :
    D.perform d ambient faults tables =
      { execution := .ofOutcome ((b.entry.execute (contextOf m) payload ambient).run faults tables).1
        tables := ((b.entry.execute (contextOf m) payload ambient).run faults tables).2 } := by
  rw [perform, hscreen]

theorem event_of_create (hscreen : D.platform.screen d = .admitted b m payload)
    (hresource : m.resource = str "project") (hcreate : m.operation = .create) :
    b.route.event.isSome = true := by
  obtain ⟨r, hpassed⟩ := passed_of_screen hscreen
  have hdeclared : registry.findRoute m.resource m.operation = some r := hpassed.declared
  rw [hresource, hcreate] at hdeclared
  rw [hpassed.bound.2]
  obtain rfl := Option.some.inj hdeclared
  rfl

/-- An event is a creation that is counted, or it changes neither count, or it
is a removal, and only the rows are fewer. -/
def Accounted (D : Deployment formats flatten) (organizationId : JSString) (tables : Tables)
    (history : List TrailEvent) (event : MeterEvent) : Prop :=
  (D.RemovesNone organizationId tables event ∧ ∃ n,
    D.created organizationId (D.seen tables event :: history) =
      n + D.created organizationId history ∧
    projectCount organizationId (D.tablesAfter tables [event]) =
      n + projectCount organizationId tables) ∨
  (¬ D.RemovesNone organizationId tables event ∧
    D.created organizationId (D.seen tables event :: history) = D.created organizationId history ∧
    projectCount organizationId (D.tablesAfter tables [event]) < projectCount organizationId tables)

/-- Only a deletion in the organisation itself can remove one of its projects. -/
theorem removesNone_of_other (hscreen : D.platform.screen d = .admitted b m payload)
    (hother : m.orgId = organizationId → m.operation ≠ .delete) :
    D.RemovesNone organizationId tables (.handled d ambient faults outcome publishedAt) := by
  intro b' m' payload' input hadmitted hdelete horg
  obtain ⟨rfl, rfl, rfl⟩ := Admission.admitted.inj (hscreen.symm.trans hadmitted)
  exact absurd hdelete (hother horg)

theorem accounted_of_still {event : MeterEvent} (hnone : D.RemovesNone organizationId tables event)
    (hcreated : D.created organizationId (D.seen tables event :: history) =
      D.created organizationId history)
    (hcount : projectCount organizationId (D.tablesAfter tables [event]) =
      projectCount organizationId tables) : D.Accounted organizationId tables history event :=
  .inl ⟨hnone, 0, by rw [hcreated, Nat.zero_add], by rw [hcount, Nat.zero_add]⟩

/-- **A creation** that is delivered inserts its row and is counted, or it does neither. -/
theorem accounted_create (hservice : d.service = .projects)
    (hscreen : D.platform.screen d = .admitted b m payload) (hcreate : m.operation = .create)
    (horg : m.orgId = organizationId)
    (honce : D.platform.Once history (D.seen tables (.handled d ambient faults outcome publishedAt)))
    (hannounced : D.Announced tables (.handled d ambient faults outcome publishedAt)) :
    D.Accounted organizationId tables history (.handled d ambient faults outcome publishedAt) := by
  subst horg
  obtain ⟨hentry, hresource, hoperation⟩ := entry_of_screen hservice hscreen
  have hcreates := (projectHandler_of_operation hentry).1 (hoperation.trans hcreate)
  have hreturned : ∀ data, (D.perform d ambient faults tables).execution = .returned data →
      ∃ row project, row.organizationId = m.orgId ∧ tables.project.insert row = some project ∧
        (D.perform d ambient faults tables).tables = { tables with project } := by
    intro data hdata
    rw [perform_of_screen hscreen, hcreates] at hdata ⊢
    exact create_returned (returned_of_ofOutcome hdata)
  have hnone : D.RemovesNone m.orgId tables (.handled d ambient faults outcome publishedAt) := by
    refine removesNone_of_other hscreen fun _ hdelete => ?_
    rw [hcreate] at hdelete
    cases hdelete
  by_cases hchanged : (D.perform d ambient faults tables).tables = tables
  · refine accounted_of_still hnone ?_ (congrArg (projectCount m.orgId) hchanged)
    refine Platform.successes_of_other hscreen fun _ _ hsucceeded => ?_
    obtain ⟨data, hdata⟩ := returned_of_succeeded hsucceeded
    obtain ⟨row, project, -, hinsert, hleft⟩ := hreturned data hdata
    exact Table.insert_ne hinsert (congrArg Tables.project (hleft.symm.trans hchanged))
  · obtain ⟨houtcome, data, hdata⟩ := hannounced.2 hchanged
    obtain ⟨row, project, horg, hinsert, hleft⟩ := hreturned data hdata
    have hevent := event_of_create hscreen hresource hcreate
    obtain ⟨-, -, text, htext⟩ := honce b m payload data hscreen hevent hdata
      (PublishOutcome.reached_of_returned houtcome)
    refine .inl ⟨hnone, 1, ?_, ?_⟩
    · have hsucceeded := (@succeeded_of_signable D.crypto D.secret b.route m data text
        outcome.returned htext fun _ => houtcome).1
      rw [← hdata] at hsucceeded
      have hcount := @Platform.successes_of_ok _ _ _ _ _ _ _ _ publishedAt history hscreen
        hsucceeded
      rw [hresource, hcreate] at hcount
      exact hcount
    · have hcount := projectCount_insert hinsert
      rw [horg, ← hleft] at hcount
      exact hcount

theorem remove_tables (hservice : d.service = .projects)
    (hscreen : D.platform.screen d = .admitted b m payload) (hdelete : m.operation = .delete) :
    (D.perform d ambient faults tables).tables =
      match (contractFor formats (str "project") .delete).input payload with
      | none => tables
      | some input =>
        if faults 0 = some .lost then tables
        else { tables with
          project := tables.project.delete
            (ProjectService.isProject m.orgId (input.text (str "id"))) } := by
  obtain ⟨hentry, -, hoperation⟩ := entry_of_screen hservice hscreen
  rw [perform_of_screen hscreen, (projectHandler_of_operation hentry).2 (hoperation.trans hdelete)]
  dsimp only
  cases hinput : (contractFor formats (str "project") .delete).input payload with
  | none =>
      obtain ⟨error, hexecute⟩ := @handlerFor_rejects formats flatten _ _ projectDelete
        (contextOf m) payload ambient hinput
      rw [hexecute]
      rfl
  | some input =>
      rw [execute_run hinput]
      exact projectDelete_run

/-- **A removal.**  The meter is told nothing of the rows it takes. -/
theorem accounted_delete (hservice : d.service = .projects)
    (hscreen : D.platform.screen d = .admitted b m payload) (hdelete : m.operation = .delete)
    (horg : m.orgId = organizationId) :
    D.Accounted organizationId tables history (.handled d ambient faults outcome publishedAt) := by
  subst horg
  have huncounted : D.created m.orgId (D.seen tables
      (.handled d ambient faults outcome publishedAt) :: history) = D.created m.orgId history := by
    refine Platform.successes_of_other hscreen fun _ hcreate => ?_
    rw [hdelete] at hcreate
    cases hcreate
  have hleft := @remove_tables _ _ D tables d ambient faults b m payload hservice hscreen hdelete
  by_cases hremoves : ∃ input, (contractFor formats (str "project") .delete).input payload =
      some input ∧ faults 0 ≠ some .lost ∧ ∃ row ∈ tables.project.rows,
        ProjectService.isProject m.orgId (input.text (str "id")) row = true
  · obtain ⟨input, hinput, hmade, row, hrow, hnamed⟩ := hremoves
    refine .inr ⟨?_, huncounted, ?_⟩
    · intro hnone
      have hother := hnone b m payload input hscreen hdelete rfl hinput hmade row hrow
      rw [hnamed] at hother
      cases hother
    · have hfewer := projectCount_delete hrow hnamed
      simp only [hinput, if_neg hmade] at hleft
      rw [← hleft] at hfewer
      exact hfewer
  · have hnone : D.RemovesNone m.orgId tables (.handled d ambient faults outcome publishedAt) := by
      intro b' m' payload' input hadmitted _ _ hinput hmade
      obtain ⟨rfl, rfl, rfl⟩ := Admission.admitted.inj (hscreen.symm.trans hadmitted)
      exact none_of_not_exists fun hnamed => hremoves ⟨input, hinput, hmade, hnamed⟩
    refine accounted_of_still hnone huncounted (congrArg (projectCount m.orgId) (hleft.trans ?_))
    split
    · rfl
    · rename_i input hinput
      split
      · rfl
      · rename_i hmade
        rw [Table.delete_eq_self.mpr (none_of_not_exists fun hnamed =>
          hremoves ⟨input, hinput, hmade, hnamed⟩)]

/-- **One event** that is announced and comes once is a creation that is counted, or changes
neither count, or is a removal. -/
theorem accounted {event : MeterEvent}
    (honce : D.platform.Once history (D.seen tables event)) (hannounced : D.Announced tables event) :
    D.Accounted organizationId tables history event := by
  cases event with
  | consumed subject raw now =>
      exact accounted_of_still trivial rfl rfl
  | handled d ambient faults outcome publishedAt =>
      cases hscreen : D.platform.screen d with
      | refused route error =>
          refine accounted_of_still (fun b m payload input hadmitted => ?_) ?_ ?_
          · rw [hscreen] at hadmitted
            cases hadmitted
          · simp only [created, Platform.successes, seen, Platform.succeeded, hscreen]
          · simp only [tablesAfter, perform, hscreen]
      | admitted b m payload =>
          have hservice := hannounced.1
          by_cases hcreate : m.orgId = organizationId ∧ m.operation = .create
          · exact accounted_create hservice hscreen hcreate.2 hcreate.1 honce hannounced
          · by_cases hdelete : m.orgId = organizationId ∧ m.operation = .delete
            · exact accounted_delete hservice hscreen hdelete.2 hdelete.1
            · obtain ⟨hentry, -, hoperation⟩ := entry_of_screen hservice hscreen
              refine accounted_of_still
                (removesNone_of_other hscreen fun horg h => hdelete ⟨horg, h⟩)
                (Platform.successes_of_other hscreen fun horg h => absurd ⟨horg, h⟩ hcreate) ?_
              have hother : (contextOf m).orgId = organizationId →
                  b.entry.operation ≠ .create ∧ b.entry.operation ≠ .delete := by
                intro horg
                rw [hoperation]
                exact ⟨fun h => hcreate ⟨horg, h⟩, fun h => hdelete ⟨horg, h⟩⟩
              simp only [tablesAfter, perform, hscreen]
              exact projectCount_kept hentry hother

/-! ## Over a whole run -/

/-- The projects feature is metered for creations of projects and for nothing
else. -/
theorem feature_of_unit {m : RequestMeta} {unit : TrackedUnit}
    (h : trackedUnit registry m = some unit) :
    (unit.featureId == str "projects") = (unit.event == (str "project", Operation.create)) := by
  have hall : (registry.resources.all fun entry => operations.all fun operation =>
      (entry.2.operations operation).all fun rule => !rule.consumes ||
        entry.2.featureId.all fun featureId => (featureId == str "projects") ==
          ((entry.1, operation) == (str "project", Operation.create))) = true := by
    decide
  unfold trackedUnit at h
  split at h
  · cases h
  · rename_i rule hrule
    split at h
    · cases h
    · rename_i hconsumes
      obtain ⟨d, hd⟩ := Registry.resource?_of_ruleFor hrule
      rw [hd, Option.bind_some] at h
      obtain ⟨featureId, hfeature, rfl⟩ := Option.map_eq_some_iff.mp h
      have hentry := List.all_eq_true.mp hall _ (Registry.resource?_eq_some.mp hd)
      have hrules := List.all_eq_true.mp hentry m.operation (mem_operations m.operation)
      have hdeclared : d.operations m.operation = some rule := by
        rw [Registry.ruleFor, hd] at hrule
        exact hrule
      rw [hdeclared, Option.all_some, not_not.mp hconsumes, hfeature] at hrules
      simpa using hrules

/-- Autumn's usage of the projects feature is what was metered of creations. -/
theorem unitsOf_projects {P : Platform Handling} (hreg : P.reg = registry)
    {history : List TrailEvent} (hrun : P.OnceRun history) :
    unitsOf (P.usageLog history) organizationId (str "projects") =
      P.unitsMetered history organizationId (str "project") .create := by
  rw [unitsOf, Platform.unitsMetered]
  refine congrArg (fun log : EventTable TrackedUnit => (log.map (·.body.value)).sum)
    (List.filter_congr fun old hold => ?_)
  have htable := Platform.OnceRun.tableInv hrun .billingMeter (trackedUnit P.reg)
  obtain ⟨m, -, unit, hunit, hpair⟩ := Platform.mem_rowsOf.mp (htable.sound old hold)
  obtain ⟨-, rfl⟩ := Prod.mk.inj hpair
  rw [hreg] at hunit
  rw [feature_of_unit hunit]

variable {start : Tables} {run : List MeterEvent}

/-- A run of the meter is a run of the audit trail, so what was proved of that
holds of it. -/
theorem onceRun_of_metered (h : D.MeteredRun start run) : D.platform.OnceRun (D.trail start run) := by
  induction h with
  | start => exact .start
  | next _ hevent ih => exact .next ih ⟨hevent.1, hevent.2.1⟩

/-- The usage that the gate compares is that of the projects feature. -/
theorem readUsage_project (features : JSString → Option ℤ) :
    readUsage features (str "project") = features (str "projects") := rfl

/-- **A drained meter** whose features add up reports as usage the creations of the
organisation's projects. -/
theorem usage_eq_created (h : D.MeteredRun start run)
    (hdrained : D.platform.Drained .billingMeter (D.trail start run))
    {features : JSString → Option ℤ}
    (hadds : AddsUp (D.platform.usageLog (D.trail start run)) organizationId features) :
    (readUsage features (str "project")).getD 0 = D.created organizationId (D.trail start run) := by
  have honce := onceRun_of_metered h
  rw [readUsage_project, hadds, unitsOf_projects rfl honce]
  have hrule : registry.ruleFor (str "project") .create = some (mutationRule .admin true 5000) := rfl
  exact congrArg _ (Platform.unitsMetered_eq honce registry_metersAudited hdrained hrule rfl)

/-- **The rows are the creations**, less what was removed; they are as many exactly where no
step removed one. -/
theorem count_eq_created (hstart : projectCount organizationId start = 0)
    (h : D.MeteredRun start run) :
    projectCount organizationId (D.tablesAfter start run) ≤
        D.created organizationId (D.trail start run) ∧
      (projectCount organizationId (D.tablesAfter start run) =
          D.created organizationId (D.trail start run) ↔
        Run (fun earlier event =>
          D.RemovesNone organizationId (D.tablesAfter start earlier) event) run) := by
  induction h with
  | start => exact ⟨hstart.le, fun _ => .start, fun _ => hstart⟩
  | @next earlier event hrun hevent ih =>
      obtain ⟨hle, hiff⟩ := ih
      have htables : D.tablesAfter start (event :: earlier) =
          D.tablesAfter (D.tablesAfter start earlier) [event] := by
        cases event <;> rfl
      rw [htables, trail]
      have haccounted : D.Accounted organizationId (D.tablesAfter start earlier)
          (D.trail start earlier) event := accounted hevent.2.1 hevent.2.2
      rcases haccounted with ⟨hnone, n, hcreated, hcount⟩ | ⟨hsome, hcreated, hcount⟩
      · rw [hcreated, hcount]
        refine ⟨by omega, fun hsame => .next (hiff.mp (by omega)) hnone, fun hlater => ?_⟩
        cases hlater with
        | next hearlier _ => rw [hiff.mpr hearlier]
      · rw [hcreated]
        refine ⟨by omega, fun hsame => by omega, fun hlater => ?_⟩
        cases hlater with
        | next _ hnone => exact absurd hnone hsome

/-- The meter's receipt of everything on a stream. -/
def receipts (stream : Stream) : List MeterEvent :=
  stream.map fun entry => .consumed entry.body.1 entry.body.2 0

theorem evtStream_receipts (entries : Stream) :
    D.platform.evtStream (D.trail start (receipts entries ++ run)) =
      D.platform.evtStream (D.trail start run) := by
  induction entries with
  | nil => rfl
  | cons entry entries ih => exact ih

/-- Consuming the events that are stored changes no table of the projects service. -/
theorem tablesAfter_receipts (entries : Stream) :
    D.tablesAfter start (receipts entries ++ run) = D.tablesAfter start run := by
  induction entries with
  | nil => rfl
  | cons entry entries ih => exact ih

/-- Consuming the events that are stored is no further success of a creation. -/
theorem created_receipts (entries : Stream) :
    D.created organizationId (D.trail start (receipts entries ++ run)) =
      D.created organizationId (D.trail start run) := by
  induction entries with
  | nil => rfl
  | cons entry entries ih => exact ih

/-- A run may go on by consuming any of the stored events, in any order and any
number of times. -/
theorem metered_receipts (h : D.MeteredRun start run) {entries : Stream}
    (hentries : ∀ entry ∈ entries, entry ∈ D.platform.evtStream (D.trail start run)) :
    D.MeteredRun start (receipts entries ++ run) := by
  induction entries with
  | nil => exact h
  | cons entry entries ih =>
      have hstored : entry ∈ D.platform.evtStream (D.trail start (receipts entries ++ run)) := by
        rw [evtStream_receipts]
        exact hentries entry List.mem_cons_self
      exact .next (ih fun old hold => hentries old (List.mem_cons_of_mem _ hold))
        ⟨⟨entry, hstored, rfl⟩, trivial, trivial⟩

/-- Each stored event that is consumed is in the history as consumed by the meter. -/
theorem mem_receipts {entry : DedupLog.Entry JSString (JSString × Json)} {entries : Stream}
    (h : entry ∈ entries) :
    .consumed .billingMeter entry.body.1 entry.body.2 0 ∈
      D.trail start (receipts entries ++ run) := by
  induction entries with
  | nil => cases h
  | cons first entries ih =>
      rcases List.mem_cons.mp h with rfl | h
      · exact List.mem_cons_self
      · exact List.mem_cons_of_mem _ (ih h)

/-- **Every run can be drained**: what its meter has yet to consume changes neither the rows
nor the creations. -/
theorem exists_drained (organizationId : JSString) (h : D.MeteredRun start run) : ∃ later,
    D.MeteredRun start (later ++ run) ∧
      D.platform.Drained .billingMeter (D.trail start (later ++ run)) ∧
      D.tablesAfter start (later ++ run) = D.tablesAfter start run ∧
      D.created organizationId (D.trail start (later ++ run)) =
        D.created organizationId (D.trail start run) := by
  refine ⟨receipts (D.platform.evtStream (D.trail start run)),
    metered_receipts h fun _ => id, ?_, tablesAfter_receipts _, created_receipts _⟩
  intro entry hentry
  rw [evtStream_receipts] at hentry
  exact ⟨0, mem_receipts hentry⟩

/-- Usage that is the number of rows tells the gate when the rows are at the limit. -/
theorem counted_iff {features : JSString → Option ℤ} {plan : PlanKey} :
    Counted organizationId features plan tables ↔
      (readUsage features (str "project")).getD 0 = projectCount organizationId tables := by
  refine ⟨Counted.usage, fun husage => ⟨husage, ?_⟩⟩
  intro limit used nextPlan message hdenied
  unfold Registry.checkResourceAccess at hdenied
  dsimp only at hdenied
  split at hdenied
  · cases hdenied
  · cases hdenied
  · rename_i n hlimit
    split at hdenied
    · rename_i hfull
      cases hdenied
      refine ⟨n, hlimit, ?_⟩
      rw [husage] at hfull
      omega
    · cases hdenied

/-- **Usage is rows while nothing is removed.**  In a run without batches and
without lost events whose meter has received every event, the usage that is
read is the number of rows exactly where no removal of the run took one. -/
theorem usage_counts_rows_iff (D : Deployment formats flatten) (organizationId : JSString)
    (start : Tables) (hstart : projectCount organizationId start = 0) (run : List MeterEvent)
    (hrun : D.MeteredRun start run)
    (hdrained : D.platform.Drained .billingMeter (D.trail start run))
    (features : JSString → Option ℤ) (plan : PlanKey)
    (hadds : AddsUp (D.platform.usageLog (D.trail start run)) organizationId features) :
    Counted organizationId features plan (D.tablesAfter start run) ↔
      Run (fun earlier event =>
        D.RemovesNone organizationId (D.tablesAfter start earlier) event) run := by
  rw [counted_iff, usage_eq_created hrun hdrained hadds, Nat.cast_inj, eq_comm]
  exact (count_eq_created hstart hrun).2

end Deployment

/-! ## A project that was removed -/

section Demonstration

open Deployment

/-- `project.create`. -/
def createCall : DispatchArgs :=
  { requestId := str "request-2", resource := str "project", operation := .create,
    input := .object [(str "name", .string (str "Launch")), (str "slug", .string (str "launch"))] }

/-- What is signed beside the body. -/
def createMeta : RequestMeta :=
  metaFor registry createCall remover (mutationRule .admin true 5000) removeAnswers

def createBody : Json :=
  .object [(str "name", .string (str "Launch")), (str "slug", .string (str "launch"))]

/-- An admin's `project.create` passes every gate of the gateway, and is signed with the
body it had. -/
theorem create_honest (crypto : Crypto) (secret : JSString) : ∃ e,
    HonestCall crypto secret registry (contractFor roughFormats) createCall removeAnswers e ∧
    e.requestMeta = createMeta ∧ e.payload = createBody.toValue := by
  obtain ⟨signature, hsign⟩ := @Statement.sign_isSome crypto
    (.envelope .request createMeta createBody.toValue) _ (canonicalJson_toValue _) secret
  have hprepare := @prepare_of_passes crypto secret registry (contractFor roughFormats)
    createCall removeAnswers remover (mutationRule .admin true 5000)
    createBody.toValue signature rfl rfl (by decide) rfl rfl rfl rfl rfl hsign
  have hid : 8 ≤ (str "request-2").length := by decide
  refine ⟨_, ⟨hprepare, hid, ?_, by decide⟩, rfl, rfl⟩
  intro identity hidentity
  obtain rfl := Option.some.inj hidentity
  decide

/-- The message of the call, on its subject. -/
def createDelivery (raw : Json) : Delivery :=
  { handling := 0, service := .projects, raw, subject := rpcSubject (str "project") .create,
    now := 1000 }

variable {D : Deployment roughFormats noFlatten}

/-- The projects service admits that creation, in the envelope that the gateway signed. -/
theorem create_reaches (hcrypto : D.crypto = .transparent) (hsecret : D.secret = str "secret") :
    ∃ raw b, D.platform.screen (createDelivery raw) =
      .admitted b createMeta createBody.toValue := by
  obtain ⟨e, hcall, hmeta, hpayload⟩ := create_honest .transparent (str "secret")
  have hsafe : ClocksSafe e := by
    rw [ClocksSafe, hmeta]
    decide
  have harrives : Arrives e (mutationRule .admin true 5000).transport 1000 1000 := by
    constructor
    · rw [hmeta]
      decide
    · decide
    · intro _
      rw [hmeta]
      decide
  have hbody : project e.payload = .json createBody := by rw [hpayload]; rfl
  have howner : registry.ownerOf createCall.resource = some (D.service .projects).service := by
    rw [defineService_service (D.booted .projects)]
    rfl
  obtain ⟨b, hscreen, -⟩ := call_reaches hcall hsafe rfl (by decide) howner harrives hbody
  refine ⟨e.wire createBody, b, ?_⟩
  rw [hmeta, ← hcrypto, ← hsecret] at hscreen
  exact hscreen

/-- The projects service admits an honest `project.delete`, in the envelope that the gateway
signed. -/
theorem remove_reaches_projects (hcrypto : D.crypto = .transparent) (hsecret : D.secret = str "secret") :
    ∃ raw b, D.platform.screen (removeDelivery 1 raw) =
      .admitted b removeMeta (removeBody (str "p1")).toValue := by
  obtain ⟨e, hcall, hmeta, hpayload⟩ := remove_honest .transparent (str "secret") (str "p1")
  obtain ⟨b, hscreen, -⟩ := remove_reaches hcall hmeta hpayload (D.service .projects)
    (defineService_service (D.booted .projects))
  refine ⟨e.wire (removeBody (str "p1")), b, ?_⟩
  rw [← hcrypto, ← hsecret] at hscreen
  exact hscreen

/-- A process whose next id is `p1`. -/
def nextAmbient : Ambient := { idleAmbient with uuid := fun _ => str "p1" }

def createEvent (raw : Json) : MeterEvent :=
  .handled (createDelivery raw) nextAmbient (fun _ => none) .acknowledged 1000

def removeEvent (raw : Json) : MeterEvent :=
  .handled (removeDelivery 1 raw) idleAmbient (fun _ => none) .acknowledged 2000

/-- The admitted creation inserts its row and answers with data that can be
signed. -/
theorem create_performs {raw : Json} {b : Binding Handling}
    (hscreen : D.platform.screen (createDelivery raw) =
      .admitted b createMeta createBody.toValue) :
    ∃ data text, D.perform (createDelivery raw) nextAmbient (fun _ => none) default =
      { execution := .returned data, tables := launched } ∧ canonicalJson data = some text := by
  obtain ⟨hentry, -, hoperation⟩ := entry_of_screen rfl hscreen
  rw [perform_of_screen hscreen, (projectHandler_of_operation hentry).1 hoperation]
  exact ⟨_, _, rfl, rfl⟩

/-- The admitted deletion removes the project's row, and answers with the id it had. -/
theorem remove_performs {raw : Json} {b : Binding Handling}
    (hscreen : D.platform.screen (removeDelivery 1 raw) =
      .admitted b removeMeta (removeBody (str "p1")).toValue) :
    D.perform (removeDelivery 1 raw) idleAmbient (fun _ => none) launched =
      { execution := .returned (idValue (str "p1")),
        tables := { launched with
          project := launched.project.delete
            (ProjectService.isProject (str "acme") (str "p1")) } } := by
  obtain ⟨hentry, -, hoperation⟩ := entry_of_screen rfl hscreen
  rw [perform_of_screen hscreen, (projectHandler_of_operation hentry).2 hoperation]
  rfl

theorem created_run {raw : Json} {b : Binding Handling}
    (hscreen : D.platform.screen (createDelivery raw) =
      .admitted b createMeta createBody.toValue) :
    D.MeteredRun default [createEvent raw] ∧ D.tablesAfter default [createEvent raw] = launched := by
  obtain ⟨data, text, hperform, htext⟩ := create_performs hscreen
  have hleft : D.tablesAfter default [createEvent raw] = launched :=
    congrArg Performed.tables hperform
  refine ⟨.next .start ⟨trivial, ?_, rfl, fun _ => ⟨rfl, _, congrArg Performed.execution hperform⟩⟩,
    hleft⟩
  intro b' m payload data' _ _ hdata _
  have hexecution : (D.perform (createDelivery raw) nextAmbient (fun _ => none) default).execution =
      .returned data := congrArg Performed.execution hperform
  obtain rfl := Execution.returned.inj (hexecution.symm.trans hdata)
  exact ⟨fun _ h => absurd h List.not_mem_nil, rfl, text, htext⟩

theorem created_once {raw : Json} {b : Binding Handling}
    (hscreen : D.platform.screen (createDelivery raw) =
      .admitted b createMeta createBody.toValue) :
    D.created (str "acme") (D.trail default [createEvent raw]) = 1 := by
  obtain ⟨hrun, hleft⟩ := created_run hscreen
  have hnone : Run (fun earlier event =>
      D.RemovesNone (str "acme") (D.tablesAfter default earlier) event) [createEvent raw] := by
    refine .next .start (removesNone_of_other hscreen fun _ hdelete => ?_)
    cases hdelete
  have hstart : projectCount (str "acme") default = 0 := rfl
  rw [← (count_eq_created hstart hrun).2.mpr hnone, hleft]
  rfl

/-- The creation of a project, then its removal, is a run that leaves no row and one
creation. -/
theorem removed_run {raw raw' : Json} {b b' : Binding Handling}
    (hcreated : D.platform.screen (createDelivery raw) =
      .admitted b createMeta createBody.toValue)
    (hremoved : D.platform.screen (removeDelivery 1 raw') =
      .admitted b' removeMeta (removeBody (str "p1")).toValue) :
    D.MeteredRun default [removeEvent raw', createEvent raw] ∧
      projectCount (str "acme") (D.tablesAfter default [removeEvent raw', createEvent raw]) = 0 ∧
      D.created (str "acme") (D.trail default [removeEvent raw', createEvent raw]) = 1 := by
  obtain ⟨hrun, hlaunched⟩ := created_run hcreated
  have hperform := remove_performs hremoved
  have hexecution : (D.perform (removeDelivery 1 raw') idleAmbient (fun _ => none)
      (D.tablesAfter default [createEvent raw])).execution = .returned (idValue (str "p1")) := by
    rw [hlaunched]
    exact congrArg Performed.execution hperform
  refine ⟨.next hrun ⟨trivial, ?_, rfl, fun _ => ⟨rfl, _, hexecution⟩⟩, ?_, ?_⟩
  · intro b'' m payload data hscreen _ hdata _
    obtain ⟨rfl, rfl, rfl⟩ := Admission.admitted.inj (hremoved.symm.trans hscreen)
    obtain rfl := Execution.returned.inj (hexecution.symm.trans hdata)
    refine ⟨fun entry hentry => ?_, rfl, _, rfl⟩
    obtain ⟨m, hm, hkey⟩ := Platform.success_of_key (onceRun_of_metered hrun) hentry
    have honly : m = createMeta := by
      simp only [trail, seen, createEvent, Platform.succeeded, hcreated] at hm
      split at hm
      · exact List.mem_singleton.mp hm
      · cases hm
    rw [hkey, honly]
    decide
  · have hleft : D.tablesAfter default [removeEvent raw', createEvent raw] =
        (D.perform (removeDelivery 1 raw') idleAmbient (fun _ => none) launched).tables :=
      congrArg (fun tables => (D.perform (removeDelivery 1 raw') idleAmbient (fun _ => none)
        tables).tables) hlaunched
    rw [hleft, hperform]
    rfl
  · rw [← created_once hcreated]
    refine Platform.successes_of_other hremoved fun _ hcreate => ?_
    cases hcreate

/-- There is a deployment with the shipped registry and services that boot. -/
theorem deployment_exists : ∃ D : Deployment roughFormats noFlatten,
    D.crypto = .transparent ∧ D.secret = str "secret" := by
  choose service hbooted using services_boot roughFormats noFlatten
  exact ⟨⟨.transparent, str "secret", service, hbooted⟩, rfl, rfl⟩

/-- What `track` adds up to. -/
def addedUp (log : EventTable TrackedUnit) (customerId : JSString) : JSString → Option ℤ :=
  fun featureId => some (unitsOf log customerId featureId)

/-- **The meter keeps counting a project that was removed**: nothing of the organisation is
left, and its usage is one. -/
theorem removed_project_metered : ∃ (D : Deployment roughFormats noFlatten) (run : List MeterEvent)
    (features : JSString → Option ℤ),
    D.MeteredRun default run ∧ D.platform.Drained .billingMeter (D.trail default run) ∧
    AddsUp (D.platform.usageLog (D.trail default run)) (str "acme") features ∧
    (readUsage features (str "project")).getD 0 = 1 ∧
    projectCount (str "acme") (D.tablesAfter default run) = 0 := by
  obtain ⟨D, hcrypto, hsecret⟩ := deployment_exists
  obtain ⟨raw, b, hcreated⟩ := create_reaches hcrypto hsecret
  obtain ⟨raw', b', hremoved⟩ := remove_reaches_projects hcrypto hsecret
  obtain ⟨hrun, hcount, honce⟩ := removed_run hcreated hremoved
  obtain ⟨later, hmetered, hdrained, hleft, hsame⟩ := exists_drained (str "acme") hrun
  have hadds : AddsUp (D.platform.usageLog (D.trail default
      (later ++ [removeEvent raw', createEvent raw]))) (str "acme")
      (addedUp (D.platform.usageLog (D.trail default
        (later ++ [removeEvent raw', createEvent raw]))) (str "acme")) := fun _ => rfl
  refine ⟨D, _, _, hmetered, hdrained, hadds, ?_, ?_⟩
  · rw [usage_eq_created hmetered hdrained hadds, hsame, honce]
    rfl
  · rw [hleft, hcount]

/-- A project that is created and stays is a row and counted as one, as the theorem says. -/
theorem kept_project_counted : ∃ (D : Deployment roughFormats noFlatten) (run : List MeterEvent)
    (features : JSString → Option ℤ),
    projectCount (str "acme") (D.tablesAfter default run) = 1 ∧
    Counted (str "acme") features (str "free") (D.tablesAfter default run) := by
  obtain ⟨D, hcrypto, hsecret⟩ := deployment_exists
  obtain ⟨raw, b, hcreated⟩ := create_reaches hcrypto hsecret
  obtain ⟨hrun, hlaunched⟩ := created_run hcreated
  obtain ⟨later, hmetered, hdrained, hleft, hsame⟩ := exists_drained (str "acme") hrun
  have hadds : AddsUp (D.platform.usageLog (D.trail default (later ++ [createEvent raw])))
      (str "acme") (addedUp (D.platform.usageLog (D.trail default
        (later ++ [createEvent raw]))) (str "acme")) := fun _ => rfl
  have hcount : projectCount (str "acme") (D.tablesAfter default (later ++ [createEvent raw])) = 1 := by
    rw [hleft, hlaunched]
    rfl
  refine ⟨D, _, _, hcount, (usage_counts_rows_iff D (str "acme") default rfl _ hmetered hdrained _
    (str "free") hadds).mpr ?_⟩
  refine (count_eq_created rfl hmetered).2.mp ?_
  rw [hcount, hsame, created_once hcreated]

end Demonstration

end Guardrail
