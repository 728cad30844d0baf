import GuardrailPlatform.Service
import GuardrailPlatform.StoreProgram
import GuardrailPlatform.Table

/-!
# The services' tables

The rows of every table the services own, with the unique constraints their
schemas declare, and what a handler draws from its process: ids, the clock,
the database's own time, and what Autumn answers.
-/

/-- `new Date(t + ms)`.  `none` is an invalid date, which no column takes. -/
def Js.Instant.plus (t : Js.Instant) (ms : ℤ) : Option Js.Instant :=
  if h : -8640000000000000 ≤ t.ms + ms ∧ t.ms + ms ≤ 8640000000000000 then some ⟨t.ms + ms, h⟩
  else none

namespace Guardrail

open Js
open Storage (Outcome Program Table)

/-! ## Columns -/

/-- A `timestamp` column.  JavaScript reads it to the millisecond. -/
structure Timestamp where
  instant : Instant
  micros : Fin 1000
deriving DecidableEq

/-- The column as the database orders it, in microseconds. -/
def Timestamp.order (t : Timestamp) : ℤ := t.instant.ms * 1000 + t.micros.val

/-- A `Date` as a column: `toISOString` writes milliseconds. -/
def Timestamp.ofInstant (t : Instant) : Timestamp := ⟨t, 0⟩

def Timestamp.toValue (t : Timestamp) : Value := .date (some t.instant)

/-- A nullable column. -/
def nullableValue {α : Type} (toValue : α → Value) : Option α → Value
  | some a => toValue a
  | none => .null

/-! ## Rows -/

structure OrganizationRow where
  id : JSString
  name : JSString
  slug : JSString
  logo : Option JSString
  metadata : Option JSString
  createdAt : Timestamp
deriving DecidableEq

structure UserRow where
  id : JSString
  name : JSString
  email : JSString
  image : Option JSString
deriving DecidableEq

/-- `role` is text: several roles may stand in it, or none the platform knows. -/
structure MemberRow where
  id : JSString
  organizationId : JSString
  userId : JSString
  role : JSString
  createdAt : Timestamp
deriving DecidableEq

structure InvitationRow where
  id : JSString
  organizationId : JSString
  email : JSString
  role : Option JSString
  status : JSString
  expiresAt : Timestamp
  inviterId : JSString
deriving DecidableEq

structure ProjectRow where
  id : JSString
  organizationId : JSString
  name : JSString
  slug : JSString
  description : Option JSString
  createdById : JSString
  archivedAt : Option Timestamp
  createdAt : Timestamp
  updatedAt : Timestamp
deriving DecidableEq

structure AuditLogRow where
  id : JSString
  organizationId : JSString
  actorId : JSString
  actorRole : JSString
  resource : JSString
  operation : JSString
  outcome : JSString
  requestId : JSString
  metadata : Option Json
  createdAt : Timestamp

/-! ## Constraints -/

def OrganizationRow.Clash (a b : OrganizationRow) : Prop := a.id = b.id ∨ a.slug = b.slug

def UserRow.Clash (a b : UserRow) : Prop := a.id = b.id ∨ a.email = b.email

def MemberRow.Clash (a b : MemberRow) : Prop := a.id = b.id

def InvitationRow.Clash (a b : InvitationRow) : Prop := a.id = b.id

/-- `project_org_slug_idx`, and the primary key. -/
def ProjectRow.Clash (a b : ProjectRow) : Prop :=
  a.id = b.id ∨ a.organizationId = b.organizationId ∧ a.slug = b.slug

def AuditLogRow.Clash (a b : AuditLogRow) : Prop := a.id = b.id ∨ a.requestId = b.requestId

instance : DecidableRel OrganizationRow.Clash := fun _ _ => inferInstanceAs (Decidable (_ ∨ _))

instance : DecidableRel UserRow.Clash := fun _ _ => inferInstanceAs (Decidable (_ ∨ _))

instance : DecidableRel MemberRow.Clash := fun _ _ => inferInstanceAs (Decidable (_ = _))

instance : DecidableRel InvitationRow.Clash := fun _ _ => inferInstanceAs (Decidable (_ = _))

instance : DecidableRel ProjectRow.Clash := fun _ _ => inferInstanceAs (Decidable (_ ∨ _ ∧ _))

instance : DecidableRel AuditLogRow.Clash := fun _ _ => inferInstanceAs (Decidable (_ ∨ _))

/-! ## The store -/

/-- Every table of the platform.  Each belongs to one service, and no service
has a handler that names another's. -/
structure Tables where
  organization : Table OrganizationRow OrganizationRow.Clash
  user : Table UserRow UserRow.Clash
  member : Table MemberRow MemberRow.Clash
  invitation : Table InvitationRow InvitationRow.Clash
  project : Table ProjectRow ProjectRow.Clash
  auditLog : Table AuditLogRow AuditLogRow.Clash
deriving Inhabited

/-- What a handler draws from its process while it runs. -/
structure Ambient where
  /-- `crypto.randomUUID()`, call by call. -/
  uuid : ℕ → JSString
  /-- `Date.now()` and `new Date()`, call by call. -/
  clock : ℕ → Instant
  /-- `now()` in the database. -/
  dbNow : Timestamp
  /-- `billing.getEntitlements`. -/
  entitlements : Outcome ServiceError Entitlements
  /-- `billing.checkout`: the URL to visit, if there is one. -/
  checkout : Outcome ServiceError (Option JSString)

/-- Storage calls, ending in a value, a coded error or a crash. -/
abbrev Storing (α : Type) := Program Tables ServiceError α

/-- `order by ... desc`. -/
def newestFirst {ρ : Type} (createdAt : ρ → Timestamp) (rows : List ρ) : List ρ :=
  rows.mergeSort fun a b => decide ((createdAt b).order ≤ (createdAt a).order)

end Guardrail
