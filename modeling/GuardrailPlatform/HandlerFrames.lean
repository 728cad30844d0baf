import GuardrailPlatform.Services

/-!
# What a handler writes

A handler makes at most one statement that is not a query.  Whatever reflexive
relation that statement keeps between the store it finds and the one it leaves,
the storage function keeps, and so does the whole handler: one lemma each, and
the results about writes never look inside one again.
-/

namespace Guardrail

open Js
open Storage (Program)
open Storage.Program (query Frames)
open IdentityService

section Frames

variable {frame : Tables → Tables → Prop} (hrefl : ∀ tables, frame tables tables)

/-! ## Answers, guards and queries -/

/-- Turning a deleted row into an answer, or its absence into an error, writes nothing. -/
theorem frames_removed (row : Option JSString) (error : ServiceError) :
    (removed row error).Frames frame := by
  cases row <;> trivial

/-- Turning an organisation that was found into an answer writes nothing to any table. -/
theorem frames_answered (found : Option (OrganizationRow × ℕ)) (error : ServiceError) :
    (answered found error).Frames frame := by
  cases found <;> trivial

theorem frames_parseOutput (contract : Contract) (output : Value) :
    (parseOutput contract output).Frames frame := by
  unfold parseOutput
  split <;> trivial

/-- A handler frames what its logic does on every input that its contract lets pass. -/
theorem handlerFor_frames {formats : Formats} {flatten : ResourceKey → Operation → Value → Value}
    {resource : ResourceKey} {operation : Operation} {run : Logic} {ctx : ServiceContext}
    {payload : Value} {ambient : Ambient}
    (hrun : ∀ input, (contractFor formats resource operation).input payload = some input →
      (run ctx input ambient).Frames frame) :
    ((handlerFor formats flatten resource operation run).execute ctx payload ambient).Frames
      frame := by
  apply handlerFor_cases (motive := fun program => program.Frames frame)
  · intro error
    trivial
  · intro input hinput
    exact .bind (hrun input hinput) fun output => frames_parseOutput _ output

/-! ## The storage functions that write -/

/-- Its one statement deletes from the members, so a relation which that keeps
is kept. -/
theorem removeMember_frames {organizationId memberId : JSString}
    (h : ∀ tables : Tables, frame tables
      { tables with member := tables.member.delete (isMember organizationId memberId) }) :
    (removeMember organizationId memberId).Frames frame := by
  refine .perform fun s a t hstatement => ?_
  obtain ⟨-, rfl⟩ := Prod.mk.inj (Option.some.inj hstatement)
  exact h s

theorem revokeInvitation_frames {organizationId id : JSString}
    (h : ∀ tables : Tables, frame tables
      { tables with invitation := tables.invitation.delete (isInvitation organizationId id) }) :
    (revokeInvitation organizationId id).Frames frame := by
  refine .perform fun s a t hstatement => ?_
  obtain ⟨-, rfl⟩ := Prod.mk.inj (Option.some.inj hstatement)
  exact h s

/-- Storing an invitation is one statement, so it keeps what an insertion of that row keeps.
-/
theorem createInvitation_frames {row : Option InvitationRow}
    (h : ∀ (tables : Tables) invited invitation, row = some invited →
      tables.invitation.insert invited = some invitation →
      frame tables { tables with invitation }) : (createInvitation row).Frames frame := by
  cases row with
  | none => trivial
  | some row =>
      refine .perform fun s a t hstatement => ?_
      obtain ⟨invitation, hinsert, hresult⟩ := Option.map_eq_some_iff.mp hstatement
      obtain ⟨-, rfl⟩ := Prod.mk.inj hresult
      exact h s row invitation rfl hinsert

/-- The founding's transaction inserts an organisation together with its first member, or
neither of them. -/
theorem createOrganization_frames {row : OrganizationRow} {first : MemberRow}
    (h : ∀ (tables : Tables) organization member,
      tables.organization.insert row = some organization →
      tables.member.insert first = some member →
      frame tables { tables with organization, member }) :
    (createOrganization row first).Frames frame := by
  refine .perform fun s a t hstatement => ?_
  obtain ⟨organization, horganization, hstatement⟩ := Option.bind_eq_some_iff.mp hstatement
  obtain ⟨member, hmember, hresult⟩ := Option.map_eq_some_iff.mp hstatement
  obtain ⟨-, rfl⟩ := Prod.mk.inj hresult
  exact h s organization member horganization hmember

/-- Deleting an organisation is one transaction, which deletes from three tables at once. -/
theorem deleteOrganization_frames {organizationId : JSString}
    (h : ∀ tables : Tables, frame tables
      { tables with
        invitation := tables.invitation.delete (invitedTo organizationId),
        member := tables.member.delete (ofOrganization organizationId),
        organization := tables.organization.delete (isOrganization organizationId) }) :
    (deleteOrganization organizationId).Frames frame := by
  refine .perform fun s a t hstatement => ?_
  obtain ⟨-, rfl⟩ := Prod.mk.inj (Option.some.inj hstatement)
  exact h s

/-- Creating a project is one statement, so it keeps what an insertion of that row keeps. -/
theorem create_frames {row : ProjectRow}
    (h : ∀ (tables : Tables) project, tables.project.insert row = some project →
      frame tables { tables with project }) : (ProjectService.create row).Frames frame := by
  refine .perform fun s a t hstatement => ?_
  obtain ⟨project, hinsert, hresult⟩ := Option.map_eq_some_iff.mp hstatement
  obtain ⟨-, rfl⟩ := Prod.mk.inj hresult
  exact h s project hinsert

/-- Updating a project writes in one statement, which patches the project it names. -/
theorem update_frames {organizationId id : JSString} {patch : ProjectService.Patch}
    {ambient : Ambient}
    (h : ∀ (tables : Tables) project,
      tables.project.update (ProjectService.isProject organizationId id)
        (patch.apply ambient.clock) = some project → frame tables { tables with project }) :
    (ProjectService.update organizationId id patch ambient).Frames frame := by
  refine .perform fun s a t hstatement => ?_
  obtain ⟨project, hupdate, hresult⟩ := Option.map_eq_some_iff.mp hstatement
  obtain ⟨-, rfl⟩ := Prod.mk.inj hresult
  exact h s project hupdate

theorem remove_frames {organizationId id : JSString}
    (h : ∀ tables : Tables, frame tables
      { tables with
        project := tables.project.delete (ProjectService.isProject organizationId id) }) :
    (ProjectService.remove organizationId id).Frames frame := by
  refine .perform fun s a t hstatement => ?_
  obtain ⟨-, rfl⟩ := Prod.mk.inj (Option.some.inj hstatement)
  exact h s

include hrefl

/-- A query leaves the store as it finds it, so a program keeps what its rest
keeps. -/
theorem frames_query_bind {α β : Type} (read : Tables → α) {k : α → Storing β}
    (hk : ∀ a, (k a).Frames frame) : (query read >>= k).Frames frame :=
  .bind (.query hrefl read) hk

theorem frames_guardOwner (demoted : Bool) (organizationId : JSString) :
    (guardOwner demoted organizationId).Frames frame := by
  unfold guardOwner
  split
  · refine frames_query_bind hrefl _ fun people => ?_
    split <;> trivial
  · trivial

/-- Counting the seats of an organisation that was found writes nothing to any table. -/
theorem frames_countedOrganization (row : Option OrganizationRow) (organizationId : JSString) :
    (match row with
      | none => pure none
      | some row => do
        let memberCount ← countSeats organizationId
        pure (some (row, memberCount)) : Storing (Option (OrganizationRow × ℕ))).Frames frame := by
  cases row with
  | none => trivial
  | some row => exact frames_query_bind hrefl _ fun _ => trivial

/-- Its one writing statement sets a role in the row it names. -/
theorem setMemberRole_frames {organizationId memberId role : JSString}
    (h : ∀ (tables : Tables) member,
      tables.member.update (isMember organizationId memberId) (withRole role) = some member →
      frame tables { tables with member }) :
    (setMemberRole organizationId memberId role).Frames frame := by
  refine .bind (.perform fun s a t hstatement => ?_) fun row => ?_
  · obtain ⟨member, hupdate, hresult⟩ := Option.map_eq_some_iff.mp hstatement
    obtain ⟨-, rfl⟩ := Prod.mk.inj hresult
    exact h s member hupdate
  · cases row with
    | none => trivial
    | some row => exact .query hrefl _

/-- Updating an organisation writes in one statement, which rewrites the row it names. -/
theorem updateOrganization_frames {organizationId : JSString} {name slug : Option JSString}
    (h : ∀ (tables : Tables) organization,
      tables.organization.update (isOrganization organizationId) (withValues name slug) =
        some organization → frame tables { tables with organization }) :
    (updateOrganization organizationId name slug).Frames frame := by
  unfold updateOrganization
  split
  · trivial
  · refine .bind (.perform fun s a t hstatement => ?_) fun row =>
      frames_countedOrganization hrefl row _
    obtain ⟨organization, hupdate, hresult⟩ := Option.map_eq_some_iff.mp hstatement
    obtain ⟨-, rfl⟩ := Prod.mk.inj hresult
    exact h s organization hupdate

/-! ## Members and invitations -/

variable {ctx : ServiceContext} {input : Value} {ambient : Ambient}

/-- `member.read` has no writing statement, so it keeps any relation that every store has to
itself. -/
theorem memberRead_frames : (memberRead ctx input ambient).Frames frame :=
  frames_query_bind hrefl _ fun _ => trivial

theorem memberCreate_frames
    (h : (createInvitation (requestedInvitation ctx input ambient)).Frames frame) :
    (memberCreate ctx input ambient).Frames frame := by
  refine frames_query_bind hrefl _ fun existing => ?_
  split
  · trivial
  · refine .bind h fun created => ?_
    cases created <;> trivial

/-- `member.update` keeps what its change of role keeps; what it asks before writes nothing.
-/
theorem memberUpdate_frames
    (h : (setMemberRole ctx.orgId (input.text (str "memberId")) (input.text (str "role"))).Frames
      frame) : (memberUpdate ctx input ambient).Frames frame := by
  unfold memberUpdate
  split
  · trivial
  · refine frames_query_bind hrefl _ fun target => ?_
    cases target with
    | none => trivial
    | some target =>
        refine .bind (frames_guardOwner hrefl _ _) fun _ => .bind h fun updated => ?_
        cases updated <;> trivial

omit hrefl in
theorem memberDelete_frames (h : (removeMember ctx.orgId (input.text (str "memberId"))).Frames frame) :
    (memberDelete ctx input ambient).Frames frame :=
  .bind h fun row => frames_removed row _

theorem invitationRead_frames : (invitationRead ctx input ambient).Frames frame :=
  frames_query_bind hrefl _ fun _ => trivial

omit hrefl in
theorem invitationDelete_frames (h : (revokeInvitation ctx.orgId (input.text (str "id"))).Frames frame) :
    (invitationDelete ctx input ambient).Frames frame :=
  .bind h fun row => frames_removed row _

/-- `membership.delete` keeps whatever its deletion keeps, whichever row of the caller's it
finds. -/
theorem membershipDelete_frames (h : ∀ id, (removeMember ctx.orgId id).Frames frame) :
    (membershipDelete ctx input ambient).Frames frame := by
  refine frames_query_bind hrefl _ fun own => ?_
  cases own with
  | none => trivial
  | some own =>
      refine .bind (frames_guardOwner hrefl _ _) fun _ => ?_
      exact .bind (h own.id) fun row => frames_removed row _

/-! ## Organisations -/

theorem organizationRead_frames : (organizationRead ctx input ambient).Frames frame := by
  rw [organizationRead, organizationWithCount, Program.bind_assoc]
  exact frames_query_bind hrefl _ fun row =>
    .bind (frames_countedOrganization hrefl row _) fun found => frames_answered found _

theorem organizationCreate_frames
    (h : (createOrganization (requestedOrganization input ambient) (requestedOwner ctx ambient)).Frames
      frame) : (organizationCreate ctx input ambient).Frames frame := by
  refine frames_query_bind hrefl _ fun taken => ?_
  split
  · trivial
  · exact .bind h fun created => frames_answered created _

theorem organizationUpdate_frames
    (h : (updateOrganization ctx.orgId (input.text? (str "name")) (input.text? (str "slug"))).Frames
      frame) : (organizationUpdate ctx input ambient).Frames frame := by
  refine .bind ?_ fun taken => ?_
  · unfold newSlugTaken
    split
    · trivial
    · exact .query hrefl _
  · split
    · trivial
    · exact .bind h fun updated => frames_answered updated _

omit hrefl in
theorem organizationDelete_frames (h : (deleteOrganization ctx.orgId).Frames frame) :
    (organizationDelete ctx input ambient).Frames frame :=
  .bind h fun row => frames_removed row _

/-! ## Projects and the audit log -/

/-- `project.read` has no writing statement, whatever cursor it is given and however that is
read. -/
theorem projectRead_frames (newDate : Value → Option Instant) :
    (projectRead newDate ctx input ambient).Frames frame := by
  refine .bind ?_ fun page => trivial
  unfold ProjectService.list
  split
  · exact .query hrefl _
  · split
    · trivial
    · exact .query hrefl _

theorem projectCreate_frames
    (h : (ProjectService.create (requestedProject ctx input ambient)).Frames frame) :
    (projectCreate ctx input ambient).Frames frame := by
  refine frames_query_bind hrefl _ fun clash => ?_
  split
  · trivial
  · refine .bind h fun created => ?_
    cases created <;> trivial

omit hrefl in
theorem projectUpdate_frames
    (h : (ProjectService.update ctx.orgId (input.text (str "id")) (projectPatch input) ambient).Frames
      frame) : (projectUpdate ctx input ambient).Frames frame := by
  refine .bind h fun updated => ?_
  cases updated <;> trivial

omit hrefl in
theorem projectDelete_frames
    (h : (ProjectService.remove ctx.orgId (input.text (str "id"))).Frames frame) :
    (projectDelete ctx input ambient).Frames frame :=
  .bind h fun row => frames_removed row _

theorem auditLogRead_frames : (auditLogRead ctx input ambient).Frames frame :=
  frames_query_bind hrefl _ fun _ => trivial

end Frames

end Guardrail
