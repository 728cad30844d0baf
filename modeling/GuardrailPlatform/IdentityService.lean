import GuardrailPlatform.Handlers

/-!
# The identity service

`identityService` is the storage: one statement a function, or a query after a
statement, and a transaction is one statement.  The handlers hold the rules.
-/

namespace Guardrail

open Js
open Storage (Table)
open Storage.Program (perform query refuse crash)

/-- A member row joined with its user. -/
structure Person where
  id : JSString
  userId : JSString
  name : JSString
  email : JSString
  role : JSString
  createdAt : Timestamp
deriving DecidableEq

/-! ## Rows as objects -/

/-- A person, with the role the caller is shown. -/
def Person.toValue (row : Person) : Value :=
  .object [(str "id", .string row.id), (str "userId", .string row.userId),
    (str "name", .string row.name), (str "email", .string row.email),
    (str "role", .string (normalizeRole row.role).name), (str "createdAt", row.createdAt.toValue)]

def InvitationRow.toValue (row : InvitationRow) : Value :=
  .object [(str "id", .string row.id), (str "organizationId", .string row.organizationId),
    (str "email", .string row.email), (str "role", nullableValue .string row.role),
    (str "status", .string row.status), (str "expiresAt", row.expiresAt.toValue),
    (str "inviterId", .string row.inviterId)]

/-- `{ ...row, memberCount }`. -/
def OrganizationRow.toValue (row : OrganizationRow) (memberCount : ℕ) : Value :=
  .object [(str "id", .string row.id), (str "name", .string row.name),
    (str "slug", .string row.slug), (str "logo", nullableValue .string row.logo),
    (str "metadata", nullableValue .string row.metadata),
    (str "createdAt", row.createdAt.toValue),
    (str "memberCount", .number (.finite (.ofInt memberCount)))]

/-- `{ id }`. -/
def idValue (id : JSString) : Value := .object [(str "id", .string id)]

/-! ## Storage -/

namespace IdentityService

/-- `where organization_id = ...`. -/
def ofOrganization (organizationId : JSString) (row : MemberRow) : Bool :=
  row.organizationId == organizationId

/-- `where organization_id = ... and id = ...`. -/
def isMember (organizationId memberId : JSString) (row : MemberRow) : Bool :=
  row.organizationId == organizationId && row.id == memberId

def invitedTo (organizationId : JSString) (row : InvitationRow) : Bool :=
  row.organizationId == organizationId

def isInvitation (organizationId id : JSString) (row : InvitationRow) : Bool :=
  row.organizationId == organizationId && row.id == id

def isOrganization (organizationId : JSString) (row : OrganizationRow) : Bool :=
  row.id == organizationId

/-- `inner join "user" on user_id = "user".id`. -/
def joinUser (users : Table UserRow UserRow.Clash) (row : MemberRow) : List Person :=
  (users.select (·.id == row.userId)).map fun person =>
    { id := row.id, userId := row.userId, name := person.name, email := person.email,
      role := row.role, createdAt := row.createdAt }

def membersOf (tables : Tables) (organizationId : JSString) : List Person :=
  newestFirst Person.createdAt
    ((tables.member.select (ofOrganization organizationId)).flatMap (joinUser tables.user))

def members (organizationId : JSString) : Storing (List Person) :=
  query fun tables => membersOf tables organizationId

def countSeats (organizationId : JSString) : Storing ℕ :=
  query fun tables => (tables.member.select (ofOrganization organizationId)).length

def removeMember (organizationId memberId : JSString) : Storing (Option JSString) :=
  perform fun tables =>
    some (((tables.member.select (isMember organizationId memberId)).head?).map (·.id),
      { tables with member := tables.member.delete (isMember organizationId memberId) })

def invitations (organizationId : JSString) : Storing (List InvitationRow) :=
  query fun tables =>
    tables.invitation.select fun row => invitedTo organizationId row && row.status == str "pending"

/-- An invitation expires in 48 hours.  `none`: there is no such date. -/
def newInvitation (organizationId email role inviterId : JSString) (ambient : Ambient) :
    Option InvitationRow :=
  ((ambient.clock 0).plus (48 * 60 * 60 * 1000)).map fun expiresAt =>
    { id := ambient.uuid 0, organizationId, email, role := some role, status := str "pending",
      expiresAt := .ofInstant expiresAt, inviterId }

def createInvitation (row : Option InvitationRow) : Storing (Option InvitationRow) :=
  match row with
  | none => crash
  | some row =>
    perform fun tables =>
      (tables.invitation.insert row).map fun invitation => (some row, { tables with invitation })

def revokeInvitation (organizationId id : JSString) : Storing (Option JSString) :=
  perform fun tables =>
    some (((tables.invitation.select (isInvitation organizationId id)).head?).map (·.id),
      { tables with invitation := tables.invitation.delete (isInvitation organizationId id) })

def memberIn (organizationId memberId : JSString) : Storing (Option MemberRow) :=
  query fun tables => (tables.member.select (isMember organizationId memberId)).head?

/-- The caller's own row: any one of them, if there are several. -/
def membershipOf (organizationId userId : JSString) : Storing (Option MemberRow) :=
  query fun tables =>
    (tables.member.select fun row => ofOrganization organizationId row && row.userId == userId).head?

/-- `set({ role })`. -/
def withRole (role : JSString) (row : MemberRow) : MemberRow := { row with role }

def setMemberRole (organizationId memberId role : JSString) : Storing (Option Person) := do
  let row ← perform fun tables =>
    (tables.member.update (isMember organizationId memberId) (withRole role)).map fun member =>
      (((tables.member.select (isMember organizationId memberId)).map (withRole role)).head?,
        { tables with member })
  match row with
  | none => pure none
  | some row => query fun tables => (joinUser tables.user row).head?

def organizationWithCount (organizationId : JSString) : Storing (Option (OrganizationRow × ℕ)) := do
  let row ← query fun tables => (tables.organization.select (isOrganization organizationId)).head?
  match row with
  | none => pure none
  | some row => do
    let memberCount ← countSeats organizationId
    pure (some (row, memberCount))

def slugTaken (slug : JSString) : Storing Bool :=
  query fun tables => ((tables.organization.select (·.slug == slug)).head?).isSome

def newOrganization (name slug : JSString) (ambient : Ambient) : OrganizationRow :=
  { id := ambient.uuid 0, name, slug, logo := none, metadata := none, createdAt := ambient.dbNow }

/-- The first member of a new organisation. -/
def newOwner (ownerId ownerRole : JSString) (ambient : Ambient) : MemberRow :=
  { id := ambient.uuid 1, organizationId := ambient.uuid 0, userId := ownerId, role := ownerRole,
    createdAt := ambient.dbNow }

/-- One transaction: the organisation and its owner appear together. -/
def createOrganization (row : OrganizationRow) (first : MemberRow) :
    Storing (Option (OrganizationRow × ℕ)) :=
  perform fun tables =>
    (tables.organization.insert row).bind fun organization =>
      (tables.member.insert first).map fun member =>
        (some (row, 1), { tables with organization, member })

/-- `set({ name?, slug? })`. -/
def withValues (name slug : Option JSString) (row : OrganizationRow) : OrganizationRow :=
  { row with name := name.getD row.name, slug := slug.getD row.slug }

def updateOrganization (organizationId : JSString) (name slug : Option JSString) :
    Storing (Option (OrganizationRow × ℕ)) :=
  -- nothing to set is an error of the query builder
  if name.isNone && slug.isNone then crash
  else do
    let row ← perform fun tables =>
      (tables.organization.update (isOrganization organizationId) (withValues name slug)).map
        fun organization =>
          (((tables.organization.select (isOrganization organizationId)).map
            (withValues name slug)).head?, { tables with organization })
    match row with
    | none => pure none
    | some row => do
      let memberCount ← countSeats organizationId
      pure (some (row, memberCount))

/-- One transaction: what belongs to the organisation goes with it. -/
def deleteOrganization (organizationId : JSString) : Storing (Option JSString) :=
  perform fun tables =>
    some (((tables.organization.select (isOrganization organizationId)).head?).map (·.id),
      { tables with
        invitation := tables.invitation.delete (invitedTo organizationId),
        member := tables.member.delete (ofOrganization organizationId),
        organization := tables.organization.delete (isOrganization organizationId) })

end IdentityService

/-! ## Handlers -/

open IdentityService

/-- The owners an organisation is seen to have. -/
def ownersOf (people : List Person) : List Person :=
  people.filter fun row => normalizeRole row.role == highestRole

def assertNotTheLastOwner (organizationId : JSString) : Storing Unit := do
  let people ← members organizationId
  if (ownersOf people).length ≤ 1 then
    refuse (serviceError .conflict
      (str "This organisation would be left without an owner. Promote somebody else first."))
  else pure ()

def memberRead : Logic := fun ctx _ _ => do
  let people ← members ctx.orgId
  pure (.object [(str "items", .array (people.map Person.toValue))])

def acceptedValue (requestId : JSString) : Value :=
  .object [(str "accepted", .bool true), (str "requestId", .string requestId)]

/-- The row a `member.create` asks for. -/
def requestedInvitation (ctx : ServiceContext) (input : Value) (ambient : Ambient) :
    Option InvitationRow :=
  newInvitation ctx.orgId (input.text (str "email")) (input.text (str "role")) ctx.userId ambient

def memberCreate : Logic := fun ctx input ambient => do
  let existing ← invitations ctx.orgId
  -- idempotent: a redelivered command must not send a second invitation
  if existing.any (·.email == input.text (str "email")) then pure (acceptedValue ctx.requestId)
  else do
    let created ← createInvitation (requestedInvitation ctx input ambient)
    match created with
    | none => refuse (serviceError .internal (str "The invitation was not created."))
    | some _ => pure (acceptedValue ctx.requestId)

/-- A removal's answer, or the error when there was nothing to remove. -/
def removed (row : Option JSString) (error : ServiceError) : Storing Value :=
  match row with
  | none => refuse error
  | some id => pure (idValue id)

def memberDelete : Logic := fun ctx input _ => do
  let row ← removeMember ctx.orgId (input.text (str "memberId"))
  removed row (serviceError .notFound (str "That person is not in this organisation."))

def invitationRead : Logic := fun ctx _ _ => do
  let items ← invitations ctx.orgId
  pure (.object [(str "items", .array (items.map InvitationRow.toValue))])

def invitationDelete : Logic := fun ctx input _ => do
  let row ← revokeInvitation ctx.orgId (input.text (str "id"))
  removed row (serviceError .notFound (str "Invitation not found."))

/-- Demoting an owner is allowed while another is left. -/
def guardOwner (demoted : Bool) (organizationId : JSString) : Storing Unit :=
  if demoted then assertNotTheLastOwner organizationId else pure ()

def memberUpdate : Logic := fun ctx input _ =>
  if ¬ roleAtLeast ctx.role (grantedRole input) then
    refuse (serviceError .permissionDenied (str "You cannot grant a role above your own."))
  else do
    let target ← memberIn ctx.orgId (input.text (str "memberId"))
    match target with
    | none =>
      refuse (serviceError .notFound (str "That person is not in this organisation."))
    | some target => do
      guardOwner (normalizeRole target.role == highestRole && grantedRole input != highestRole)
        ctx.orgId
      let updated ← setMemberRole ctx.orgId (input.text (str "memberId")) (input.text (str "role"))
      match updated with
      | none => refuse (serviceError .internal (str "The role was not changed."))
      | some person => pure person.toValue

/-- An organisation as it is answered, or the error when there is none. -/
def answered (found : Option (OrganizationRow × ℕ)) (error : ServiceError) : Storing Value :=
  match found with
  | none => refuse error
  | some (row, memberCount) => pure (row.toValue memberCount)

def organizationRead : Logic := fun ctx _ _ => do
  let found ← organizationWithCount ctx.orgId
  answered found (serviceError .notFound (str "Organisation not found."))

def slugConflict (slug : JSString) : ServiceError :=
  serviceError .conflict (str "The slug '" ++ slug ++ str "' is already taken.")

/-- The rows an `organization.create` asks for. -/
def requestedOrganization (input : Value) (ambient : Ambient) : OrganizationRow :=
  newOrganization (input.text (str "name")) (input.text (str "slug")) ambient

def requestedOwner (ctx : ServiceContext) (ambient : Ambient) : MemberRow :=
  newOwner ctx.userId highestRole.name ambient

def organizationCreate : Logic := fun ctx input ambient => do
  let taken ← slugTaken (input.text (str "slug"))
  if taken then refuse (slugConflict (input.text (str "slug")))
  else do
    let created ← createOrganization (requestedOrganization input ambient)
      (requestedOwner ctx ambient)
    answered created (serviceError .internal (str "The organisation was not created."))

/-- `input.slug !== undefined && (await slugTaken(input.slug))`. -/
def newSlugTaken (slug : Option JSString) : Storing Bool :=
  match slug with
  | none => pure false
  | some slug => slugTaken slug

def organizationUpdate : Logic := fun ctx input _ => do
  let taken ← newSlugTaken (input.text? (str "slug"))
  if taken then refuse (slugConflict (input.text (str "slug")))
  else do
    let updated ← updateOrganization ctx.orgId (input.text? (str "name")) (input.text? (str "slug"))
    answered updated (serviceError .notFound (str "Organisation not found."))

def organizationDelete : Logic := fun ctx _ _ => do
  let row ← deleteOrganization ctx.orgId
  removed row (serviceError .notFound (str "Organisation not found."))

def membershipDelete : Logic := fun ctx _ _ => do
  let own ← membershipOf ctx.orgId ctx.userId
  match own with
  | none => refuse (serviceError .notFound (str "You are not in this organisation."))
  | some own => do
    guardOwner (normalizeRole own.role == highestRole) ctx.orgId
    let row ← removeMember ctx.orgId own.id
    removed row (serviceError .internal (str "You were not removed."))

/-- The handlers `defineService("identity", [...])` boots with. -/
def identityHandlers (formats : Formats) (flatten : ResourceKey → Operation → Value → Value) :
    List (HandlerEntry Handling) :=
  let handler := handlerFor formats flatten
  [handler (str "member") .read memberRead, handler (str "member") .create memberCreate,
    handler (str "member") .delete memberDelete, handler (str "invitation") .read invitationRead,
    handler (str "invitation") .delete invitationDelete, handler (str "member") .update memberUpdate,
    handler (str "organization") .read organizationRead,
    handler (str "organization") .create organizationCreate,
    handler (str "organization") .update organizationUpdate,
    handler (str "organization") .delete organizationDelete,
    handler (str "membership") .delete membershipDelete]

end Guardrail
