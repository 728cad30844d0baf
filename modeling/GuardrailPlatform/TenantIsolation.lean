import GuardrailPlatform.HandlerFrames

/-!
# Tenants

A handler sees the rows of its caller's organisation and the users, and no
other row: two stores that agree on these are answered alike and left agreeing,
and what belongs to another organisation stays as it was.

Both are proved statement by statement.  A statement names an organisation
together with whatever its input names, so the rows it reads and writes lie in
one part of the table; an insertion may meet another organisation's row only
through its fresh id.
-/

namespace Guardrail

open Js
open Storage (Faults Outcome Program Table)
open Storage.Program (Blind perform query)
open IdentityService

/-! ## What an organisation owns -/

def ownsProject (organizationId : JSString) (row : ProjectRow) : Bool :=
  row.organizationId == organizationId

def isLoggedFor (organizationId : JSString) (row : AuditLogRow) : Bool :=
  row.organizationId == organizationId

/-- The two stores have the same rows of the organisation, and the same users. -/
structure Agree (organizationId : JSString) (s s' : Tables) : Prop where
  user : s.user = s'.user
  organization : s.organization.select (isOrganization organizationId) =
    s'.organization.select (isOrganization organizationId)
  member : s.member.select (ofOrganization organizationId) =
    s'.member.select (ofOrganization organizationId)
  invitation : s.invitation.select (invitedTo organizationId) =
    s'.invitation.select (invitedTo organizationId)
  project : s.project.select (ownsProject organizationId) =
    s'.project.select (ownsProject organizationId)
  auditLog : s.auditLog.select (isLoggedFor organizationId) =
    s'.auditLog.select (isLoggedFor organizationId)

/-- A store has the rows it has: the relation to start every comparison from. -/
theorem Agree.refl (organizationId : JSString) (s : Tables) : Agree organizationId s s :=
  ⟨rfl, rfl, rfl, rfl, rfl, rfl⟩

/-- Agreement on an organisation passes along a run, one statement after
another. -/
theorem Agree.trans {organizationId : JSString} {s t u : Tables} (h : Agree organizationId s t)
    (h' : Agree organizationId t u) : Agree organizationId s u :=
  ⟨h.user.trans h'.user, h.organization.trans h'.organization, h.member.trans h'.member,
    h.invitation.trans h'.invitation, h.project.trans h'.project, h.auditLog.trans h'.auditLog⟩

/-- Every organisation but one has the rows it had. -/
def KeepsOthers (organizationId : JSString) (s t : Tables) : Prop :=
  ∀ other, other ≠ organizationId → Agree other s t

/-- No project and no invitation has the id. -/
structure Unused (id : JSString) (s : Tables) : Prop where
  project : ∀ row ∈ s.project.rows, row.id ≠ id
  invitation : ∀ row ∈ s.invitation.rows, row.id ≠ id

/-- Two stores an organisation cannot tell apart, and an id new to both. -/
structure Alike (organizationId id : JSString) (s s' : Tables) : Prop where
  agree : Agree organizationId s s'
  unused : Unused id s
  unused' : Unused id s'

/-! ## The parts of the tables -/

section Parts

variable {organizationId other id : JSString}

/-- A member named together with an organisation is one of that organisation's
rows. -/
theorem ofOrganization_of_isMember {row : MemberRow} (h : isMember organizationId id row = true) :
    ofOrganization organizationId row = true := by
  rw [isMember, Bool.and_eq_true] at h
  exact h.1

/-- An invitation named together with an organisation is one of its own. -/
theorem invitedTo_of_isInvitation {row : InvitationRow}
    (h : isInvitation organizationId id row = true) : invitedTo organizationId row = true := by
  rw [isInvitation, Bool.and_eq_true] at h
  exact h.1

/-- A project named together with an organisation is one of its own. -/
theorem ownsProject_of_isProject {row : ProjectRow}
    (h : ProjectService.isProject organizationId id row = true) :
    ownsProject organizationId row = true := by
  rw [ProjectService.isProject, Bool.and_eq_true] at h
  exact h.1

/-- A key that is one organisation's is no key of another organisation. -/
theorem beq_other {key : JSString} (hother : other ≠ organizationId)
    (h : (key == organizationId) = true) : (key == other) = false := by
  rw [beq_iff_eq] at h
  rw [h]
  exact beq_false_of_ne hother.symm

end Parts

/-! ## Two runs -/

section TwoRuns

variable {organizationId id : JSString} {α β : Type} {pre : Tables → Tables → Prop}

/-- The program cannot tell apart what its organisation cannot. -/
abbrev Isolated (organizationId : JSString) (pre : Tables → Tables → Prop) (p : Storing α) : Prop :=
  Blind (Agree organizationId) (fun _ => Agree organizationId) pre p

/-- A program that has ended reads nothing more, so it ends alike on stores that
agree. -/
theorem isolated_done (hpre : ∀ s s', pre s s' → Agree organizationId s s')
    (outcome : Outcome ServiceError α) : Isolated organizationId pre (.done outcome) := by
  cases outcome with
  | returned a => exact .returned hpre hpre
  | refused e => exact .refused hpre
  | crashed => exact .crashed hpre

/-- An answer that is already known does not depend on the store at all. -/
theorem isolated_pure (a : α) : Isolated organizationId (Agree organizationId) (pure a) :=
  isolated_done (fun _ _ h => h) _

/-- A query of what the organisation sees gives both runs one answer, and they
go on alike. -/
theorem isolated_query_bind {read : Tables → α} {k : α → Storing β}
    (hpre : ∀ s s', pre s s' → Agree organizationId s s')
    (hread : ∀ s s', Agree organizationId s s' → read s = read s')
    (hk : ∀ a, Isolated organizationId pre (k a)) : Isolated organizationId pre (query read >>= k) :=
  .bind (.query hpre fun s s' hs => hread s s' (hpre s s' hs)) hk

/-- A query by itself tells nothing that the agreeing stores do not share. -/
theorem isolated_query {read : Tables → α}
    (hread : ∀ s s', Agree organizationId s s' → read s = read s') :
    Isolated organizationId (Agree organizationId) (query read) :=
  .query (fun _ _ h => h) hread

theorem isolated_perform {answer : Tables → α} {after : Tables → Tables}
    (hanswer : ∀ s s', Agree organizationId s s' → answer s = answer s')
    (hafter : ∀ s s', Agree organizationId s s' → Agree organizationId (after s) (after s')) :
    Isolated organizationId (Agree organizationId)
      (perform fun s => some (answer s, after s)) := by
  refine .perform (fun _ _ h => h) (fun _ _ _ h => h) fun s s' hs => .inr ?_
  exact ⟨answer s, after s, after s', rfl, by rw [hanswer s s' hs], hafter s s' hs⟩

/-! ## Queries -/

/-- An organisation's members join its member rows with the users, and both are
shared. -/
theorem membersOf_agree {s s' : Tables} (h : Agree organizationId s s') :
    membersOf s organizationId = membersOf s' organizationId := by
  rw [membersOf, membersOf, h.member, h.user]

/-- Listing the members of an organisation sees its own rows and the users only. -/
theorem isolated_members : Isolated organizationId (Agree organizationId) (members organizationId) :=
  isolated_query fun _ _ => membersOf_agree

/-- Counting seats counts the members and the pending invitations of one
organisation. -/
theorem isolated_countSeats :
    Isolated organizationId (Agree organizationId) (countSeats organizationId) :=
  isolated_query fun _ _ h => congrArg List.length h.member

/-- The pending invitations of an organisation are among the rows it shares. -/
theorem invitations_agree {s s' : Tables} (h : Agree organizationId s s') :
    (s.invitation.select fun row => invitedTo organizationId row && row.status == str "pending") =
      s'.invitation.select fun row =>
        invitedTo organizationId row && row.status == str "pending" := by
  refine Table.select_of_part h.invitation fun row hrow => ?_
  exact (Bool.and_eq_true_iff.mp hrow).1

/-- Looking a member up by id stays inside the organisation that is named with
it. -/
theorem isolated_memberIn (memberId : JSString) :
    Isolated organizationId (Agree organizationId) (memberIn organizationId memberId) :=
  isolated_query fun _ _ h =>
    congrArg List.head? (Table.select_of_part h.member fun _ => ofOrganization_of_isMember)

/-- Looking a user's membership up stays inside the organisation that is named
with it. -/
theorem isolated_membershipOf (userId : JSString) :
    Isolated organizationId (Agree organizationId) (membershipOf organizationId userId) := by
  refine isolated_query fun _ _ h => congrArg List.head? ?_
  exact Table.select_of_part h.member fun row hrow => (Bool.and_eq_true_iff.mp hrow).1

/-- An organisation's row and the number of its members are both its own. -/
theorem isolated_organizationWithCount :
    Isolated organizationId (Agree organizationId) (organizationWithCount organizationId) := by
  refine isolated_query_bind (fun _ _ h => h) (fun _ _ h => congrArg List.head? h.organization) ?_
  intro row
  cases row with
  | none => exact isolated_pure none
  | some row => exact .bind isolated_countSeats fun memberCount => isolated_pure _

/-- A page of projects is filtered by organisation before anything else is
looked at. -/
theorem listed_agree {s s' : Tables} (h : Agree organizationId s s') (limit : ℕ)
    (before : Option Instant) (includeArchived : Bool) :
    ProjectService.listRows s organizationId limit before includeArchived =
      ProjectService.listRows s' organizationId limit before includeArchived := by
  have hpart : ∀ row, ProjectService.listed organizationId includeArchived before row = true →
      ownsProject organizationId row = true := by
    intro row hrow
    rw [ProjectService.listed, Bool.and_eq_true, Bool.and_eq_true] at hrow
    exact hrow.1.1
  rw [ProjectService.listRows, ProjectService.listRows, Table.select_of_part h.project hpart]

/-- A page of projects shows the organisation's own, whatever cursor the caller
sends. -/
theorem isolated_list (newDate : Value → Option Instant) (limit : ℕ) (cursor : Option JSString)
    (includeArchived : Bool) : Isolated organizationId (Agree organizationId)
      (ProjectService.list newDate organizationId limit cursor includeArchived) := by
  unfold ProjectService.list
  split
  · exact isolated_query fun s s' h => by rw [listed_agree h]
  · split
    · exact isolated_done (fun _ _ h => h) _
    · exact isolated_query fun s s' h => by rw [listed_agree h]

/-- A slug is looked up within one organisation, where it is unique. -/
theorem bySlug_agree {s s' : Tables} (h : Agree organizationId s s') (slug : JSString) :
    (s.project.select fun row =>
        row.organizationId == organizationId && row.slug == slug).head? =
      (s'.project.select fun row =>
        row.organizationId == organizationId && row.slug == slug).head? := by
  refine congrArg List.head? (Table.select_of_part h.project fun row hrow => ?_)
  exact (Bool.and_eq_true_iff.mp hrow).1

/-- The audit log is selected by its organisation first, and then by the resource asked for.
-/
theorem isolated_auditList (limit : ℕ) (resource : Option JSString) :
    Isolated organizationId (Agree organizationId)
      (AuditService.list organizationId limit resource) := by
  refine isolated_query fun s s' h => ?_
  have hpart : ∀ row, AuditService.listed organizationId resource row = true →
      isLoggedFor organizationId row = true :=
    fun row hrow => (Bool.and_eq_true_iff.mp hrow).1
  rw [Table.select_of_part h.auditLog hpart]

/-! ## Writes -/

/-- Removing a member deletes a row of the organisation that is named, or none. -/
theorem isolated_removeMember (memberId : JSString) :
    Isolated organizationId (Agree organizationId) (removeMember organizationId memberId) := by
  refine isolated_perform ?_ ?_
  · intro s s' h
    rw [Table.select_of_part h.member fun _ => ofOrganization_of_isMember]
  · intro s s' h
    exact { h with member := Table.delete_of_part h.member _ }

/-- Revoking an invitation deletes a row of the organisation that is named, or
none. -/
theorem isolated_revokeInvitation (invitationId : JSString) :
    Isolated organizationId (Agree organizationId)
      (revokeInvitation organizationId invitationId) := by
  refine isolated_perform ?_ ?_
  · intro s s' h
    rw [Table.select_of_part h.invitation fun _ => invitedTo_of_isInvitation]
  · intro s s' h
    exact { h with invitation := Table.delete_of_part h.invitation _ }

/-- Deleting an organisation deletes rows under its own id in every table it
touches. -/
theorem isolated_deleteOrganization :
    Isolated organizationId (Agree organizationId) (deleteOrganization organizationId) := by
  refine isolated_perform ?_ ?_
  · intro s s' h
    rw [h.organization]
  · intro s s' h
    exact { h with
      organization := Table.delete_of_part h.organization _
      member := Table.delete_of_part h.member _
      invitation := Table.delete_of_part h.invitation _ }

/-- Removing a project deletes a row of the organisation that is named, or none. -/
theorem isolated_remove (projectId : JSString) : Isolated organizationId (Agree organizationId)
    (ProjectService.remove organizationId projectId) := by
  refine isolated_perform ?_ ?_
  · intro s s' h
    rw [Table.select_of_part h.project fun _ => ownsProject_of_isProject]
  · intro s s' h
    exact { h with project := Table.delete_of_part h.project _ }

/-- Setting a role breaks no constraint in either store, so it goes the same way in both. -/
theorem isolated_setMemberRole (memberId role : JSString) :
    Isolated organizationId (Agree organizationId)
      (setMemberRole organizationId memberId role) := by
  refine .bind (.perform (fun _ _ h => h) (fun _ _ _ h => h) fun s s' h => ?_) fun row => ?_
  · have hfits : ∀ tables : Tables, ∃ member,
        tables.member.update (isMember organizationId memberId) (withRole role) = some member := by
      intro tables
      refine Table.exists_update fun a b hclash => ?_
      unfold MemberRow.Clash Table.setWhere at hclash
      split at hclash <;> split at hclash <;> exact hclash
    obtain ⟨member, hmember⟩ := hfits s
    obtain ⟨member', hmember'⟩ := hfits s'
    refine .inr ⟨_, { s with member }, { s' with member := member' }, by rw [hmember]; rfl, ?_, ?_⟩
    · rw [hmember', Table.select_of_part h.member fun _ => ofOrganization_of_isMember]
      rfl
    · exact { h with
        member := Table.update_of_part h.member hmember hmember'
          (fun _ => ofOrganization_of_isMember) fun _ => rfl }
  · cases row with
    | none => exact isolated_pure none
    | some row => exact isolated_query fun s s' h => by rw [h.user]

/-- Updating a project rewrites a row of the organisation that is named, or
none. -/
theorem isolated_update (projectId : JSString) (patch : ProjectService.Patch) (ambient : Ambient) :
    Isolated organizationId (Agree organizationId)
      (ProjectService.update organizationId projectId patch ambient) := by
  refine .perform (fun _ _ h => h) (fun _ _ _ h => h) fun s s' h => ?_
  have hfits : ∀ tables : Tables, ∃ project,
      tables.project.update (ProjectService.isProject organizationId projectId)
        (patch.apply ambient.clock) = some project := by
    intro tables
    refine Table.exists_update fun a b hclash => ?_
    unfold ProjectRow.Clash Table.setWhere at hclash
    split at hclash <;> split at hclash <;> exact hclash
  obtain ⟨project, hproject⟩ := hfits s
  obtain ⟨project', hproject'⟩ := hfits s'
  refine .inr ⟨_, { s with project }, { s' with project := project' }, by rw [hproject]; rfl, ?_, ?_⟩
  · rw [hproject', Table.select_of_part h.project fun _ => ownsProject_of_isProject]
    rfl
  · exact { h with
      project := Table.update_of_part h.project hproject hproject'
        (fun _ => ownsProject_of_isProject) fun _ => rfl }

/-- A new invitation meets no row but by its id, which is fresh. -/
theorem isolated_createInvitation {row : Option InvitationRow}
    (hid : ∀ invited, row = some invited → invited.id = id) :
    Isolated organizationId (Alike organizationId id) (createInvitation row) := by
  cases row with
  | none => exact isolated_done (fun _ _ h => h.agree) _
  | some row =>
      have hfree : ∀ s : Tables, Unused id s → ∀ old ∈ s.invitation.rows,
          row.Clash old → invitedTo organizationId old = true := by
        intro s hunused old hold hclash
        exact (hunused.invitation old hold (hclash.symm.trans (hid row rfl))).elim
      refine .perform (fun _ _ h => h.agree) (fun _ _ _ h => h) fun s s' h => ?_
      rcases Table.insert_of_part h.agree.invitation (hfree s h.unused) (hfree s' h.unused') with
        ⟨hnone, hnone'⟩ | ⟨u, u', hu, hu', hsame⟩
      · exact .inl ⟨by rw [hnone]; rfl, by rw [hnone']; rfl⟩
      · refine .inr ⟨_, _, _, by rw [hu]; rfl, by rw [hu']; rfl, ?_⟩
        exact { h.agree with invitation := hsame }

/-- A new project may also clash with a slug of its own organisation. -/
theorem isolated_create {row : ProjectRow} (hid : row.id = id)
    (horganization : row.organizationId = organizationId) :
    Isolated organizationId (Alike organizationId id) (ProjectService.create row) := by
  have hpart : ∀ s : Tables, Unused id s → ∀ old ∈ s.project.rows,
      row.Clash old → ownsProject organizationId old = true := by
    intro s hunused old hold hclash
    rcases hclash with hsame | ⟨hsame, -⟩
    · exact (hunused.project old hold (hsame.symm.trans hid)).elim
    · rw [ownsProject, beq_iff_eq, ← hsame, horganization]
  refine .perform (fun _ _ h => h.agree) (fun _ _ _ h => h) fun s s' h => ?_
  rcases Table.insert_of_part h.agree.project (hpart s h.unused) (hpart s' h.unused') with
    ⟨hnone, hnone'⟩ | ⟨u, u', hu, hu', hsame⟩
  · exact .inl ⟨by rw [hnone]; rfl, by rw [hnone']; rfl⟩
  · refine .inr ⟨_, _, _, by rw [hu]; rfl, by rw [hu']; rfl, ?_⟩
    exact { h.agree with project := hsame }

/-! ## Handlers -/

variable {ctx : ServiceContext} {input : Value} {ambient : Ambient}

/-- Turning a deleted row into an answer or a refusal makes no call. -/
theorem isolated_removed (row : Option JSString) (error : ServiceError) :
    Isolated organizationId (Agree organizationId) (removed row error) := by
  cases row with
  | none => exact isolated_done (fun _ _ h => h) _
  | some id => exact isolated_pure _

/-- The owner guard counts the owners of one organisation and of no other. -/
theorem isolated_guardOwner (demoted : Bool) :
    Isolated organizationId (Agree organizationId) (guardOwner demoted organizationId) := by
  unfold guardOwner
  split
  · refine .bind isolated_members fun people => ?_
    split
    · exact isolated_done (fun _ _ h => h) _
    · exact isolated_pure _
  · exact isolated_pure _

/-- Checking a handler's output against its contract makes no call to the store. -/
theorem isolated_parseOutput (contract : Contract) (output : Value) :
    Isolated organizationId (Agree organizationId) (parseOutput contract output) := by
  unfold parseOutput
  split
  · exact isolated_pure _
  · exact isolated_done (fun _ _ h => h) _

/-- A handler is its logic between two parses, neither of which reads the store. -/
theorem handlerFor_isolated {formats : Formats}
    {flatten : ResourceKey → Operation → Value → Value} {resource : ResourceKey}
    {operation : Operation} {run : Logic} {payload : Value}
    (hpre : ∀ s s', pre s s' → Agree organizationId s s')
    (hrun : ∀ input, Isolated organizationId pre (run ctx input ambient)) :
    Isolated organizationId pre
      ((handlerFor formats flatten resource operation run).execute ctx payload ambient) := by
  apply handlerFor_cases (motive := fun program => Isolated organizationId pre program)
  · intro error
    exact isolated_done hpre _
  · intro input _
    exact .bind (hrun input) fun output => isolated_parseOutput _ output

/-- `member.read` lists the members of the caller's organisation, which both stores have
alike. -/
theorem memberRead_isolated :
    Isolated ctx.orgId (Agree ctx.orgId) (memberRead ctx input ambient) :=
  .bind isolated_members fun _ => isolated_pure _

/-- An invitation is to the organisation of its caller, under a fresh id. -/
theorem key_of_requested {invited : InvitationRow}
    (h : requestedInvitation ctx input ambient = some invited) :
    invited.organizationId = ctx.orgId ∧ invited.id = ambient.uuid 0 := by
  obtain ⟨expiresAt, -, rfl⟩ := Option.map_eq_some_iff.mp h
  exact ⟨rfl, rfl⟩

/-- `member.create` may meet another organisation's row only through the id it
makes up. -/
theorem memberCreate_isolated :
    Isolated ctx.orgId (Alike ctx.orgId (ambient.uuid 0)) (memberCreate ctx input ambient) := by
  refine isolated_query_bind (fun _ _ h => h.agree) (fun _ _ h => invitations_agree h) ?_
  intro existing
  split
  · exact isolated_done (fun _ _ h => h.agree) _
  · refine .bind (isolated_createInvitation fun _ h => (key_of_requested h).2) fun created => ?_
    cases created with
    | none => exact isolated_done (fun _ _ h => h) _
    | some row => exact isolated_pure _

/-- `member.update` reads and writes members of the caller's organisation, and no others. -/
theorem memberUpdate_isolated :
    Isolated ctx.orgId (Agree ctx.orgId) (memberUpdate ctx input ambient) := by
  unfold memberUpdate
  split
  · exact isolated_done (fun _ _ h => h) _
  · refine .bind (isolated_memberIn _) fun target => ?_
    cases target with
    | none => exact isolated_done (fun _ _ h => h) _
    | some target =>
        refine .bind (isolated_guardOwner _) fun _ => ?_
        refine .bind (isolated_setMemberRole _ _) fun updated => ?_
        cases updated with
        | none => exact isolated_done (fun _ _ h => h) _
        | some person => exact isolated_pure _

/-- `member.delete` removes a member of the caller's organisation, which both stores have
alike. -/
theorem memberDelete_isolated :
    Isolated ctx.orgId (Agree ctx.orgId) (memberDelete ctx input ambient) :=
  .bind (isolated_removeMember _) fun row => isolated_removed row _

/-- `invitation.read` lists the pending invitations of the caller's organisation, alike in
both stores. -/
theorem invitationRead_isolated :
    Isolated ctx.orgId (Agree ctx.orgId) (invitationRead ctx input ambient) :=
  isolated_query_bind (fun _ _ h => h) (fun _ _ h => invitations_agree h) fun _ => isolated_pure _

/-- `invitation.delete` revokes an invitation of the caller's organisation, alike in both
stores. -/
theorem invitationDelete_isolated :
    Isolated ctx.orgId (Agree ctx.orgId) (invitationDelete ctx input ambient) :=
  .bind (isolated_revokeInvitation _) fun row => isolated_removed row _

/-- `membership.delete` removes the caller's own row, which is in the caller's organisation.
-/
theorem membershipDelete_isolated :
    Isolated ctx.orgId (Agree ctx.orgId) (membershipDelete ctx input ambient) := by
  refine .bind (isolated_membershipOf _) fun own => ?_
  cases own with
  | none => exact isolated_done (fun _ _ h => h) _
  | some own =>
      refine .bind (isolated_guardOwner _) fun _ => ?_
      exact .bind (isolated_removeMember _) fun row => isolated_removed row _

/-- `organization.read` shows the caller's organisation with the number of its members,
alike in both stores. -/
theorem organizationRead_isolated :
    Isolated ctx.orgId (Agree ctx.orgId) (organizationRead ctx input ambient) := by
  refine .bind isolated_organizationWithCount fun found => ?_
  cases found with
  | none => exact isolated_done (fun _ _ h => h) _
  | some found => exact isolated_pure _

/-- `organization.delete` deletes the caller's organisation and what it owns, alike in both
stores. -/
theorem organizationDelete_isolated :
    Isolated ctx.orgId (Agree ctx.orgId) (organizationDelete ctx input ambient) :=
  .bind isolated_deleteOrganization fun row => isolated_removed row _

/-- `project.read` pages through the projects of the caller's organisation, alike in both
stores. -/
theorem projectRead_isolated (newDate : Value → Option Instant) :
    Isolated ctx.orgId (Agree ctx.orgId) (projectRead newDate ctx input ambient) :=
  .bind (isolated_list _ _ _ _) fun _ => isolated_pure _

/-- `project.create` may meet another organisation's row only through the id it
makes up. -/
theorem projectCreate_isolated :
    Isolated ctx.orgId (Alike ctx.orgId (ambient.uuid 0)) (projectCreate ctx input ambient) := by
  refine isolated_query_bind (fun _ _ h => h.agree) (fun _ _ h => bySlug_agree h _) ?_
  intro clash
  split
  · exact isolated_done (fun _ _ h => h.agree) _
  · refine .bind (isolated_create rfl rfl) fun created => ?_
    cases created with
    | none => exact isolated_done (fun _ _ h => h) _
    | some row => exact isolated_pure _

/-- `project.update` rewrites a project of the caller's organisation, alike in both stores.
-/
theorem projectUpdate_isolated :
    Isolated ctx.orgId (Agree ctx.orgId) (projectUpdate ctx input ambient) := by
  refine .bind (isolated_update _ _ _) fun updated => ?_
  cases updated with
  | none => exact isolated_done (fun _ _ h => h) _
  | some row => exact isolated_pure _

/-- `project.delete` removes a project of the caller's organisation, alike in both stores.
-/
theorem projectDelete_isolated :
    Isolated ctx.orgId (Agree ctx.orgId) (projectDelete ctx input ambient) :=
  .bind (isolated_remove _) fun row => isolated_removed row _

/-- `auditLog.read` lists the log of the caller's organisation, alike in both stores. -/
theorem auditLogRead_isolated :
    Isolated ctx.orgId (Agree ctx.orgId) (auditLogRead ctx input ambient) :=
  .bind (isolated_auditList _ _) fun _ => isolated_pure _

end TwoRuns

/-! ## The other organisations -/

section Others

variable {organizationId id : JSString}

/-- A program that writes nothing leaves every other organisation as it was. -/
theorem KeepsOthers.refl (s : Tables) : KeepsOthers organizationId s s :=
  fun other _ => Agree.refl other s

/-- What each of two steps leaves alone, the two steps together leave alone. -/
theorem KeepsOthers.trans {s t u : Tables} (h : KeepsOthers organizationId s t)
    (h' : KeepsOthers organizationId t u) : KeepsOthers organizationId s u :=
  fun other hother => (h other hother).trans (h' other hother)

/-- A member row of one organisation is no row of another, so deleting it is not
felt there. -/
theorem not_ofOrganization {other : JSString} (hother : other ≠ organizationId) (row : MemberRow)
    (h : isMember organizationId id row = true) : ofOrganization other row = false :=
  beq_other hother (ofOrganization_of_isMember h)

/-- A row that is a project of one organisation is no project of another. -/
theorem not_ownsProject {other : JSString} (hother : other ≠ organizationId) (row : ProjectRow)
    (h : ProjectService.isProject organizationId id row = true) : ownsProject other row = false :=
  beq_other hother (ownsProject_of_isProject h)

/-- The delete names its organisation, so no other organisation loses a member. -/
theorem removeMember_keepsOthers (memberId : JSString) :
    (removeMember organizationId memberId).Frames (KeepsOthers organizationId) := by
  refine removeMember_frames fun s other hother => ?_
  have hrows := Table.delete_of_disjoint s.member (@not_ofOrganization _ memberId other hother)
  exact { Agree.refl other s with member := hrows.symm }

/-- The delete names its organisation, so no other organisation loses an
invitation. -/
theorem revokeInvitation_keepsOthers (invitationId : JSString) :
    (revokeInvitation organizationId invitationId).Frames (KeepsOthers organizationId) := by
  refine revokeInvitation_frames fun s other hother => ?_
  have hrows := Table.delete_of_disjoint (q := invitedTo other) s.invitation fun row hrow =>
    beq_other hother (@invitedTo_of_isInvitation _ invitationId _ hrow)
  exact { Agree.refl other s with invitation := hrows.symm }

/-- The cascade follows one organisation's id through every table, and keeps the rows of the
others. -/
theorem deleteOrganization_keepsOthers :
    (deleteOrganization organizationId).Frames (KeepsOthers organizationId) := by
  refine deleteOrganization_frames fun s other hother => ?_
  exact { Agree.refl other s with
    organization := (Table.delete_of_disjoint s.organization fun _ hrow => beq_other hother hrow).symm
    member := (Table.delete_of_disjoint s.member fun _ hrow => beq_other hother hrow).symm
    invitation := (Table.delete_of_disjoint s.invitation fun _ hrow =>
      beq_other hother hrow).symm }

/-- The delete names its organisation, so no other organisation loses a project. -/
theorem remove_keepsOthers (projectId : JSString) :
    (ProjectService.remove organizationId projectId).Frames (KeepsOthers organizationId) := by
  refine remove_frames fun s other hother => ?_
  have hrows := Table.delete_of_disjoint s.project (@not_ownsProject _ projectId other hother)
  exact { Agree.refl other s with project := hrows.symm }

/-- The update names its organisation, and it leaves the row's organisation as
it is. -/
theorem setMemberRole_keepsOthers (memberId role : JSString) :
    (setMemberRole organizationId memberId role).Frames (KeepsOthers organizationId) := by
  refine setMemberRole_frames KeepsOthers.refl fun s member hupdate other hother => ?_
  have hrows := Table.update_of_disjoint hupdate (not_ofOrganization hother) fun _ => rfl
  exact { Agree.refl other s with member := hrows.symm }

/-- A patch changes no project's organisation, so no row moves to another. -/
theorem update_keepsOthers (projectId : JSString) (patch : ProjectService.Patch)
    (ambient : Ambient) : (ProjectService.update organizationId projectId patch ambient).Frames
      (KeepsOthers organizationId) := by
  refine update_frames fun s project hupdate other hother => ?_
  have hrows := Table.update_of_disjoint hupdate (not_ownsProject hother) fun _ => rfl
  exact { Agree.refl other s with project := hrows.symm }

/-- A row inserted under one organisation is seen by that organisation alone. -/
theorem createInvitation_keepsOthers {row : Option InvitationRow}
    (h : ∀ invited, row = some invited → invited.organizationId = organizationId) :
    (createInvitation row).Frames (KeepsOthers organizationId) := by
  refine createInvitation_frames fun s invited invitation hrow hinsert other hother => ?_
  have hpart : invitedTo other invited = false := by
    rw [invitedTo, h invited hrow]
    exact beq_false_of_ne hother.symm
  exact { Agree.refl other s with invitation := (Table.insert_of_disjoint hinsert hpart).symm }

/-- A project inserted under one organisation is seen by that organisation
alone. -/
theorem create_keepsOthers {row : ProjectRow} (h : row.organizationId = organizationId) :
    (ProjectService.create row).Frames (KeepsOthers organizationId) := by
  refine create_frames fun s project hinsert other hother => ?_
  have hpart : ownsProject other row = false := by
    rw [ownsProject, h]
    exact beq_false_of_ne hother.symm
  exact { Agree.refl other s with project := (Table.insert_of_disjoint hinsert hpart).symm }

end Others

/-! ## Every tenant operation -/

/-- The operations on what an organisation owns.  `organization.create` and
`organization.update` are not among them: a slug is one of all organisations. -/
def tenantOperations : List (ResourceKey × Operation) :=
  [(str "project", .read), (str "project", .create), (str "project", .update),
    (str "project", .delete), (str "auditLog", .read), (str "member", .read),
    (str "member", .create), (str "member", .update), (str "member", .delete),
    (str "invitation", .read), (str "invitation", .delete), (str "membership", .delete),
    (str "organization", .read), (str "organization", .delete)]

/-- What isolation asks of one handler. -/
structure TenantIsolated (entry : HandlerEntry Handling) (ctx : ServiceContext) (payload : Value)
    (ambient : Ambient) : Prop where
  isolated : Isolated ctx.orgId (Alike ctx.orgId (ambient.uuid 0))
    (entry.execute ctx payload ambient)
  keeps : (entry.execute ctx payload ambient).Frames (KeepsOthers ctx.orgId)

section Entries

variable {formats : Formats} {flatten : ResourceKey → Operation → Value → Value}
  {entry : HandlerEntry Handling} {ctx : ServiceContext} {payload : Value} {ambient : Ambient}

/-- Logic that inserts nothing is isolated without a fresh id: agreement on the organisation
is enough. -/
theorem tenantIsolated_of_agree {resource : ResourceKey} {operation : Operation} {run : Logic}
    (hisolated : ∀ input, Isolated ctx.orgId (Agree ctx.orgId) (run ctx input ambient))
    (hkeeps : ∀ input, (run ctx input ambient).Frames (KeepsOthers ctx.orgId)) :
    TenantIsolated (handlerFor formats flatten resource operation run) ctx payload ambient :=
  ⟨(handlerFor_isolated (fun _ _ h => h) hisolated).weaken fun _ _ h => h.agree,
    handlerFor_frames fun input _ => hkeeps input⟩

/-- A handler is isolated once its logic is, and once its write stays at home. -/
theorem tenantIsolated_of_alike {resource : ResourceKey} {operation : Operation} {run : Logic}
    (hisolated : ∀ input, Isolated ctx.orgId (Alike ctx.orgId (ambient.uuid 0))
      (run ctx input ambient))
    (hkeeps : ∀ input, (run ctx input ambient).Frames (KeepsOthers ctx.orgId)) :
    TenantIsolated (handlerFor formats flatten resource operation run) ctx payload ambient :=
  ⟨handlerFor_isolated (fun _ _ h => h.agree) hisolated,
    handlerFor_frames fun input _ => hkeeps input⟩

/-- Every handler of the projects service is isolated, whatever the payload and the faults.
-/
theorem projects_isolated (hentry : entry ∈ projectHandlers formats flatten) :
    TenantIsolated entry ctx payload ambient := by
  simp only [projectHandlers, List.mem_cons, List.not_mem_nil, or_false] at hentry
  rcases hentry with rfl | rfl | rfl | rfl
  · exact tenantIsolated_of_agree (fun _ => projectRead_isolated _)
      fun _ => projectRead_frames KeepsOthers.refl _
  · exact tenantIsolated_of_alike (fun _ => projectCreate_isolated)
      fun _ => projectCreate_frames KeepsOthers.refl (create_keepsOthers rfl)
  · exact tenantIsolated_of_agree (fun _ => projectUpdate_isolated)
      fun _ => projectUpdate_frames (update_keepsOthers _ _ _)
  · exact tenantIsolated_of_agree (fun _ => projectDelete_isolated)
      fun _ => projectDelete_frames (remove_keepsOthers _)

/-- The handler of the audit service is isolated, whatever the payload and the faults. -/
theorem audit_isolated (hentry : entry ∈ auditHandlers formats flatten) :
    TenantIsolated entry ctx payload ambient := by
  obtain rfl := List.mem_singleton.mp hentry
  exact tenantIsolated_of_agree (fun _ => auditLogRead_isolated)
    fun _ => auditLogRead_frames KeepsOthers.refl

/-- Every handler of the identity service is isolated but the two that deal with
slugs, which are unique across organisations. -/
theorem identity_isolated (hentry : entry ∈ identityHandlers formats flatten)
    (hcreate : (entry.resource, entry.operation) ≠ (str "organization", .create))
    (hupdate : (entry.resource, entry.operation) ≠ (str "organization", .update)) :
    TenantIsolated entry ctx payload ambient := by
  simp only [identityHandlers, List.mem_cons, List.not_mem_nil, or_false] at hentry
  rcases hentry with rfl | rfl | rfl | rfl | rfl | rfl | rfl | rfl | rfl | rfl | rfl
  · exact tenantIsolated_of_agree (fun _ => memberRead_isolated)
      fun _ => memberRead_frames KeepsOthers.refl
  · exact tenantIsolated_of_alike (fun _ => memberCreate_isolated) fun input =>
      memberCreate_frames KeepsOthers.refl
        (createInvitation_keepsOthers fun _ h => (key_of_requested h).1)
  · exact tenantIsolated_of_agree (fun _ => memberDelete_isolated)
      fun _ => memberDelete_frames (removeMember_keepsOthers _)
  · exact tenantIsolated_of_agree (fun _ => invitationRead_isolated)
      fun _ => invitationRead_frames KeepsOthers.refl
  · exact tenantIsolated_of_agree (fun _ => invitationDelete_isolated)
      fun _ => invitationDelete_frames (revokeInvitation_keepsOthers _)
  · exact tenantIsolated_of_agree (fun _ => memberUpdate_isolated)
      fun _ => memberUpdate_frames KeepsOthers.refl (setMemberRole_keepsOthers _ _)
  · exact tenantIsolated_of_agree (fun _ => organizationRead_isolated)
      fun _ => organizationRead_frames KeepsOthers.refl
  · exact (hcreate rfl).elim
  · exact (hupdate rfl).elim
  · exact tenantIsolated_of_agree (fun _ => organizationDelete_isolated)
      fun _ => organizationDelete_frames deleteOrganization_keepsOthers
  · exact tenantIsolated_of_agree (fun _ => membershipDelete_isolated)
      fun _ => membershipDelete_frames KeepsOthers.refl fun id => removeMember_keepsOthers id

/-- **Tenant isolation.**  Whatever fails on the way, an operation on what an
organisation owns gives stores that agree on the organisation one answer and
leaves them agreeing, and leaves every other organisation its rows. -/
theorem tenants_isolated (formats : Formats) (flatten : ResourceKey → Operation → Value → Value)
    (service : ServiceName) (entry : HandlerEntry Handling)
    (hentry : entry ∈ handlersOf formats flatten service)
    (htenant : (entry.resource, entry.operation) ∈ tenantOperations)
    (ctx : ServiceContext) (payload : Value) (ambient : Ambient) (faults : Faults) :
    let run := (entry.execute ctx payload ambient).run faults
    (∀ s s', Agree ctx.orgId s s' → Unused (ambient.uuid 0) s → Unused (ambient.uuid 0) s' →
      (run s).1 = (run s').1 ∧ Agree ctx.orgId (run s).2 (run s').2) ∧
    ∀ s other, other ≠ ctx.orgId → Agree other s (run s).2 := by
  have hisolated : TenantIsolated entry ctx payload ambient := by
    cases service with
    | projects => exact projects_isolated hentry
    | audit => exact audit_isolated hentry
    | identity =>
        refine identity_isolated hentry ?_ ?_
        · intro hcreate
          rw [hcreate] at htenant
          exact absurd htenant (by decide)
        · intro hupdate
          rw [hupdate] at htenant
          exact absurd htenant (by decide)
    | billing =>
        simp only [handlersOf, billingHandlers, List.mem_cons, List.not_mem_nil, or_false] at hentry
        have hread : (str "billing", Operation.read) ∉ tenantOperations := by decide
        have hmanage : (str "billing", Operation.manage) ∉ tenantOperations := by decide
        rcases hentry with rfl | rfl
        · exact (hread htenant).elim
        · exact (hmanage htenant).elim
  constructor
  · intro s s' hagree hunused hunused'
    exact Program.run_of_blind hisolated.isolated faults ⟨hagree, hunused, hunused'⟩
  · intro s other hother
    exact Program.run_frames KeepsOthers.refl (fun _ _ _ => KeepsOthers.trans) hisolated.keeps
      faults s other hother

end Entries

/-! ## Another organisation's project -/

section Demonstration

/-- A store with one project, of an organisation `globex`. -/
def globexStore : Tables :=
  { (default : Tables) with
    project := ⟨[
      { id := str "p1", organizationId := str "globex", name := str "Launch", slug := str "launch",
        description := none, createdById := str "grace", archivedAt := none,
        createdAt := .ofInstant epoch, updatedAt := .ofInstant epoch }],
      List.pairwise_singleton _ _⟩ }

def acmeAdmin : ServiceContext :=
  { requestId := str "request-1", orgId := str "acme", userId := str "ada", role := .admin,
    plan := str "free", deadlineAt := 0 }

/-- An administrator of `acme` asks to delete it. -/
def foreignDeletion : Storing Value :=
  (handlerFor roughFormats (fun _ _ _ => .null) (str "project") .delete projectDelete).execute
    acmeAdmin (.object [(str "id", .string (str "p1"))]) idleAmbient

/-- The answer is the one an empty store gives, and the project stays. -/
theorem foreign_project_untouched :
    (foreignDeletion.run (fun _ => none) globexStore).1 =
        (foreignDeletion.run (fun _ => none) default).1 ∧
      Agree (str "globex") globexStore (foreignDeletion.run (fun _ => none) globexStore).2 := by
  have hunused : Unused (idleAmbient.uuid 0) globexStore := by
    constructor
    · intro row hrow
      obtain rfl := List.mem_singleton.mp hrow
      decide
    · intro row hrow
      cases hrow
  have hempty : Unused (idleAmbient.uuid 0) default := by
    constructor <;> (intro row hrow; cases hrow)
  have hisolated := tenants_isolated roughFormats (fun _ _ _ => .null) .projects
    (handlerFor roughFormats (fun _ _ _ => .null) (str "project") .delete projectDelete)
    (by simp [handlersOf, projectHandlers]) (by decide) acmeAdmin
    (.object [(str "id", .string (str "p1"))]) idleAmbient fun _ => none
  exact ⟨(hisolated.1 globexStore default ⟨rfl, rfl, rfl, rfl, rfl, rfl⟩ hunused hempty).1,
    hisolated.2 globexStore (str "globex") (by decide)⟩

end Demonstration

end Guardrail
