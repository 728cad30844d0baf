import GuardrailPlatform.IdentityService

/-!
# The other services, and boot

Projects and the audit log have their tables; billing has none, since Autumn
is its database.
-/

namespace Guardrail

open Js
open Storage (Program)
open Storage.Program (perform query refuse crash)

/-! ## Projects -/

def ProjectRow.toValue (row : ProjectRow) : Value :=
  .object [(str "id", .string row.id), (str "organizationId", .string row.organizationId),
    (str "name", .string row.name), (str "slug", .string row.slug),
    (str "description", nullableValue .string row.description),
    (str "createdById", .string row.createdById),
    (str "archivedAt", nullableValue Timestamp.toValue row.archivedAt),
    (str "createdAt", row.createdAt.toValue), (str "updatedAt", row.updatedAt.toValue)]

namespace ProjectService

def isProject (organizationId id : JSString) (row : ProjectRow) : Bool :=
  row.organizationId == organizationId && row.id == id

/-- The filters of `list`.  An empty cursor is no cursor. -/
def listed (organizationId : JSString) (includeArchived : Bool) (before : Option Instant)
    (row : ProjectRow) : Bool :=
  row.organizationId == organizationId && (includeArchived || row.archivedAt.isNone) &&
    before.all fun t => decide (row.createdAt.order < (Timestamp.ofInstant t).order)

/-- A page, and where the next one starts. -/
structure Page where
  items : List ProjectRow
  nextCursor : Option JSString

/-- `rows` holds one row more than the page when there is a next one. -/
def pageOf (limit : ℕ) (rows : List ProjectRow) : Page :=
  if limit < rows.length then
    { items := rows.take limit,
      nextCursor := (rows.take limit).getLast?.map fun row => toISOString row.createdAt.instant }
  else { items := rows, nextCursor := none }

def listRows (tables : Tables) (organizationId : JSString) (limit : ℕ) (before : Option Instant)
    (includeArchived : Bool) : List ProjectRow :=
  (newestFirst ProjectRow.createdAt
    (tables.project.select (listed organizationId includeArchived before))).take (limit + 1)

/-- `list`.  A cursor that is no date throws where the query is built. -/
def list (newDate : Value → Option Instant) (organizationId : JSString) (limit : ℕ)
    (cursor : Option JSString) (includeArchived : Bool) : Storing Page :=
  match cursor.filter (· ≠ []) with
  | none => query fun tables => pageOf limit (listRows tables organizationId limit none includeArchived)
  | some cursor =>
    match newDate (.string cursor) with
    | none => crash
    | some before =>
      query fun tables =>
        pageOf limit (listRows tables organizationId limit (some before) includeArchived)

def bySlug (organizationId slug : JSString) : Storing (Option ProjectRow) :=
  query fun tables =>
    (tables.project.select fun row => row.organizationId == organizationId && row.slug == slug).head?

def newRow (organizationId createdById name slug : JSString) (description : Option JSString)
    (ambient : Ambient) : ProjectRow :=
  { id := ambient.uuid 0, organizationId, name, slug, description, createdById,
    archivedAt := none, createdAt := ambient.dbNow, updatedAt := ambient.dbNow }

def create (row : ProjectRow) : Storing (Option ProjectRow) :=
  perform fun tables =>
    (tables.project.insert row).map fun project => (some row, { tables with project })

/-- What an update sets.  A column it leaves `none` is not in the statement. -/
structure Patch where
  name : Option JSString
  description : Option (Option JSString)
  archived : Option Bool

/-- `set({ name, description, archivedAt, updatedAt })`. -/
def Patch.apply (patch : Patch) (clock : ℕ → Instant) (row : ProjectRow) : ProjectRow :=
  { row with
    name := patch.name.getD row.name
    description := patch.description.getD row.description
    archivedAt :=
      match patch.archived with
      | none => row.archivedAt
      | some true => some (.ofInstant (clock 0))
      | some false => none
    updatedAt := .ofInstant (clock 1) }

def update (organizationId id : JSString) (patch : Patch) (ambient : Ambient) :
    Storing (Option ProjectRow) :=
  perform fun tables =>
    (tables.project.update (isProject organizationId id) (patch.apply ambient.clock)).map
      fun project =>
        (((tables.project.select (isProject organizationId id)).map
          (patch.apply ambient.clock)).head?, { tables with project })

def remove (organizationId id : JSString) : Storing (Option JSString) :=
  perform fun tables =>
    some (((tables.project.select (isProject organizationId id)).head?).map (·.id),
      { tables with project := tables.project.delete (isProject organizationId id) })

end ProjectService

def projectRead (newDate : Value → Option Instant) : Logic := fun ctx input _ => do
  let page ← ProjectService.list newDate ctx.orgId (input.count (str "limit"))
    (input.text? (str "cursor")) ((input.flag? (str "includeArchived")).getD false)
  pure (.object [(str "items", .array (page.items.map ProjectRow.toValue)),
    (str "nextCursor", nullableValue .string page.nextCursor)])

/-- The row a `project.create` asks for. -/
def requestedProject (ctx : ServiceContext) (input : Value) (ambient : Ambient) : ProjectRow :=
  ProjectService.newRow ctx.orgId ctx.userId (input.text (str "name")) (input.text (str "slug"))
    (input.text? (str "description")) ambient

def projectCreate : Logic := fun ctx input ambient => do
  let clash ← ProjectService.bySlug ctx.orgId (input.text (str "slug"))
  if clash.isSome then
    refuse (serviceError .conflict (str "That slug is taken in this organisation."))
  else do
    let created ← ProjectService.create (requestedProject ctx input ambient)
    match created with
    | none => refuse (serviceError .internal (str "The project was not created."))
    | some row => pure row.toValue

/-- The keys of the input that are there. -/
def projectPatch (input : Value) : ProjectService.Patch :=
  { name := input.text? (str "name"), description := input.nullableText? (str "description"),
    archived := input.flag? (str "archived") }

def projectUpdate : Logic := fun ctx input ambient => do
  let updated ← ProjectService.update ctx.orgId (input.text (str "id")) (projectPatch input) ambient
  match updated with
  | none => refuse (serviceError .notFound (str "Project not found."))
  | some row => pure row.toValue

def projectDelete : Logic := fun ctx input _ => do
  let row ← ProjectService.remove ctx.orgId (input.text (str "id"))
  removed row (serviceError .notFound (str "Project not found."))

/-- `projectHandlers`. -/
def projectHandlers (formats : Formats) (flatten : ResourceKey → Operation → Value → Value) :
    List (HandlerEntry Handling) :=
  let handler := handlerFor formats flatten
  [handler (str "project") .read (projectRead formats.newDate),
    handler (str "project") .create projectCreate, handler (str "project") .update projectUpdate,
    handler (str "project") .delete projectDelete]

/-- The handlers of the two operations that change how many projects there are. -/
theorem projectHandler_of_operation {formats : Formats}
    {flatten : ResourceKey → Operation → Value → Value} {entry : HandlerEntry Handling}
    (hentry : entry ∈ projectHandlers formats flatten) :
    (entry.operation = .create →
      entry = handlerFor formats flatten (str "project") .create projectCreate) ∧
    (entry.operation = .delete →
      entry = handlerFor formats flatten (str "project") .delete projectDelete) := by
  simp only [projectHandlers, List.mem_cons, List.not_mem_nil, or_false] at hentry
  constructor
  · intro hcreate
    rcases hentry with rfl | rfl | rfl | rfl
    · cases hcreate
    · rfl
    · cases hcreate
    · cases hcreate
  · intro hdelete
    rcases hentry with rfl | rfl | rfl | rfl
    · cases hdelete
    · cases hdelete
    · cases hdelete
    · rfl

/-! ## The audit log -/

def AuditLogRow.toValue (row : AuditLogRow) : Value :=
  .object [(str "id", .string row.id), (str "organizationId", .string row.organizationId),
    (str "actorId", .string row.actorId), (str "actorRole", .string row.actorRole),
    (str "resource", .string row.resource), (str "operation", .string row.operation),
    (str "outcome", .string row.outcome), (str "requestId", .string row.requestId),
    (str "metadata", nullableValue Json.toValue row.metadata),
    (str "createdAt", row.createdAt.toValue)]

namespace AuditService

/-- The filters of `list`.  An empty resource is no filter. -/
def listed (organizationId : JSString) (resource : Option JSString) (row : AuditLogRow) : Bool :=
  row.organizationId == organizationId && (resource.filter (· ≠ [])).all (row.resource == ·)

def list (organizationId : JSString) (limit : ℕ) (resource : Option JSString) :
    Storing (List AuditLogRow) :=
  query fun tables =>
    (newestFirst AuditLogRow.createdAt
      (tables.auditLog.select (listed organizationId resource))).take limit

end AuditService

def auditLogRead : Logic := fun ctx input _ => do
  let items ← AuditService.list ctx.orgId (input.count (str "limit")) (input.text? (str "resource"))
  pure (.object [(str "items", .array (items.map AuditLogRow.toValue))])

def auditHandlers (formats : Formats) (flatten : ResourceKey → Operation → Value → Value) :
    List (HandlerEntry Handling) :=
  [handlerFor formats flatten (str "auditLog") .read auditLogRead]

/-! ## Billing -/

/-- The usage record: the keys that have a number, in the registry's order. -/
def usageValue (entitlements : Entitlements) : Value :=
  .object (registry.resourceKeys.filterMap fun resource =>
    (entitlements.usage resource).map fun used => (resource, .number (.finite (.ofInt used))))

def entitlementsValue (entitlements : Entitlements) : Value :=
  .object [(str "plan", .string entitlements.plan), (str "usage", usageValue entitlements)]

/-- A resource with its label and its usage, for the billing page. -/
def resourceUsageValue (entitlements : Entitlements) (resource : ResourceKey) : Value :=
  .object [(str "resource", .string resource),
    (str "label", .string (((registry.resource? resource).map (·.label)).getD [])),
    (str "usage", .string (registry.usageLabel resource entitlements))]

def billingRead : Logic := fun _ _ ambient => do
  let entitlements ← Program.done ambient.entitlements
  pure (.object [(str "entitlements", entitlementsValue entitlements),
    (str "resources", .array (registry.resourceKeys.map (resourceUsageValue entitlements)))])

def billingManage : Logic := fun _ _ ambient => do
  let url ← Program.done ambient.checkout
  pure (.object [(str "url", nullableValue .string url)])

def billingHandlers (formats : Formats) (flatten : ResourceKey → Operation → Value → Value) :
    List (HandlerEntry Handling) :=
  [handlerFor formats flatten (str "billing") .read billingRead,
    handlerFor formats flatten (str "billing") .manage billingManage]

/-! ## Boot -/

def handlersOf (formats : Formats) (flatten : ResourceKey → Operation → Value → Value) :
    ServiceName → List (HandlerEntry Handling)
  | .projects => projectHandlers formats flatten
  | .identity => identityHandlers formats flatten
  | .billing => billingHandlers formats flatten
  | .audit => auditHandlers formats flatten

/-- **Every service boots with its handlers**, whichever of the four it is. -/
theorem services_boot (formats : Formats) (flatten : ResourceKey → Operation → Value → Value)
    (service : ServiceName) :
    ∃ rt, defineService registry service (handlersOf formats flatten service) = .ok rt := by
  cases service with
  | projects =>
      obtain ⟨rt, hboot, -⟩ := @defineService_ok Handling registry .projects
        (projectHandlers formats flatten) _ rfl rfl
      exact ⟨rt, hboot⟩
  | identity =>
      obtain ⟨rt, hboot, -⟩ := @defineService_ok Handling registry .identity
        (identityHandlers formats flatten) _ rfl rfl
      exact ⟨rt, hboot⟩
  | billing =>
      obtain ⟨rt, hboot, -⟩ := @defineService_ok Handling registry .billing
        (billingHandlers formats flatten) _ rfl rfl
      exact ⟨rt, hboot⟩
  | audit =>
      obtain ⟨rt, hboot, -⟩ := @defineService_ok Handling registry .audit
        (auditHandlers formats flatten) _ rfl rfl
      exact ⟨rt, hboot⟩

end Guardrail
