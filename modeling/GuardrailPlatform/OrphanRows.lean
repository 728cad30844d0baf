import GuardrailPlatform.HandlerFrames
import GuardrailPlatform.Invitations
import GuardrailPlatform.LastOwner

/-!
# Orphan rows

The identity tables declare no foreign key: that a member or an invitation
belongs to an organisation there is, is up to the handlers.  Deleting an
organisation takes its rows along, and creating one inserts its owner with it.

`member.create` asks nothing about the organisation.  It is a command, handled
some time after the gateway accepted it, and where the organisation has been
deleted meanwhile it invites to one that is gone.
-/

namespace Guardrail

open Js
open Storage (Table)
open Storage.Program (Frames)
open IdentityService

/-- Every member and every invitation belongs to an organisation there is. -/
structure NoOrphans (tables : Tables) : Prop where
  member : ∀ row ∈ tables.member.rows, HasOrganization tables row.organizationId
  invitation : ∀ row ∈ tables.invitation.rows, HasOrganization tables row.organizationId

/-- A write that orphans no row. -/
def OrphansNone (before after : Tables) : Prop := NoOrphans before → NoOrphans after

/-- The store before the first request, with whatever accounts there are. -/
def emptyStore (user : Table UserRow UserRow.Clash) : Tables := { (default : Tables) with user }

/-- The call is a `member.create` that comes to insert the row. -/
structure Call.Invites (formats : Formats) (call : Call) (tables : Tables) (row : InvitationRow) :
    Prop where
  command : call.entry.resource = str "member" ∧ call.entry.operation = .create
  requested : ∃ input,
    (contractFor formats (str "member") .create).input call.payload = some input ∧
    invited call.ctx tables (input.text (str "email")) = false ∧
    requestedInvitation call.ctx input call.ambient = some row
  fresh : ∀ old ∈ tables.invitation.rows, ¬ row.Clash old
  reached : call.faults 0 = none ∧ call.faults 1 ≠ some .lost

/-- Where the call comes to insert an invitation, its organisation is there. -/
def Call.InvitesToExisting (formats : Formats) (call : Call) (tables : Tables) : Prop :=
  ∀ row, call.Invites formats tables row → HasOrganization tables call.ctx.orgId

/-! ## What one write does -/

/-- A store that is left as it is has orphaned no row. -/
theorem OrphansNone.refl (tables : Tables) : OrphansNone tables tables := id

/-- What no step of two orphans, the two of them together do not orphan either. -/
theorem OrphansNone.trans (s t u : Tables) (hst : OrphansNone s t) (htu : OrphansNone t u) :
    OrphansNone s u := fun h => htu (hst h)

theorem emptyStore_noOrphans (user : Table UserRow UserRow.Clash) : NoOrphans (emptyStore user) := by
  constructor
  · intro row hrow
    cases hrow
  · intro row hrow
    cases hrow

theorem noOrphans_of_subset {before after : Tables} (h : NoOrphans before)
    (horganization : after.organization = before.organization)
    (hmember : ∀ row ∈ after.member.rows, ∃ old ∈ before.member.rows,
      old.organizationId = row.organizationId)
    (hinvitation : ∀ row ∈ after.invitation.rows, row ∈ before.invitation.rows) :
    NoOrphans after := by
  have hkept : ∀ {organizationId}, HasOrganization before organizationId →
      HasOrganization after organizationId := by
    intro organizationId hexists
    rw [HasOrganization, horganization]
    exact hexists
  constructor
  · intro row hrow
    obtain ⟨old, hold, hsame⟩ := hmember row hrow
    rw [← hsame]
    exact hkept (h.member old hold)
  · intro row hrow
    exact hkept (h.invitation row (hinvitation row hrow))

/-- Removing a member orphans no row, since no other table refers to a member. -/
theorem orphansNone_removeMember (organizationId memberId : JSString) :
    (removeMember organizationId memberId).Frames OrphansNone := by
  refine removeMember_frames fun tables h => noOrphans_of_subset h rfl ?_ fun _ hrow => hrow
  intro row hrow
  exact ⟨row, List.mem_of_mem_filter hrow, rfl⟩

/-- Revoking an invitation orphans no row, since no other table refers to an invitation. -/
theorem orphansNone_revokeInvitation (organizationId id : JSString) :
    (revokeInvitation organizationId id).Frames OrphansNone := by
  refine revokeInvitation_frames fun tables h => noOrphans_of_subset h rfl ?_ ?_
  · intro row hrow
    exact ⟨row, hrow, rfl⟩
  · intro row hrow
    exact List.mem_of_mem_filter hrow

/-- A new role leaves a member in the organisation they were in. -/
theorem orphansNone_setMemberRole (organizationId memberId role : JSString) :
    (setMemberRole organizationId memberId role).Frames OrphansNone := by
  refine setMemberRole_frames OrphansNone.refl fun tables member hupdate h => ?_
  refine noOrphans_of_subset h rfl ?_ fun _ hrow => hrow
  intro row hrow
  rw [show row ∈ member.rows ↔ _ from Iff.rfl, (Table.update_eq_some.mp hupdate).2] at hrow
  obtain ⟨old, hold, rfl⟩ := List.mem_map.mp hrow
  refine ⟨old, hold, ?_⟩
  unfold Table.setWhere
  split <;> rfl

theorem orphansNone_createOrganization (name slug ownerId ownerRole : JSString) (ambient : Ambient) :
    (createOrganization (newOrganization name slug ambient)
      (newOwner ownerId ownerRole ambient)).Frames OrphansNone := by
  refine createOrganization_frames fun tables organization member horganization hmember h => ?_
  have horganizations := (Table.insert_eq_some.mp horganization).2
  have hmembers := (Table.insert_eq_some.mp hmember).2
  have hkept : ∀ {organizationId}, HasOrganization tables organizationId →
      HasOrganization { tables with organization, member } organizationId := by
    intro organizationId hexists
    obtain ⟨row, hrow, hid⟩ := hexists
    refine ⟨row, ?_, hid⟩
    rw [show (_ : Tables).organization.rows = organization.rows from rfl, horganizations]
    exact List.mem_cons_of_mem _ hrow
  constructor
  · intro row hrow
    rw [show row ∈ _ ↔ row ∈ member.rows from Iff.rfl, hmembers] at hrow
    rcases List.mem_cons.mp hrow with rfl | hrow
    · refine ⟨newOrganization name slug ambient, ?_, rfl⟩
      rw [show (_ : Tables).organization.rows = organization.rows from rfl, horganizations]
      exact List.mem_cons_self
    · exact hkept (h.member row hrow)
  · intro row hrow
    exact hkept (h.invitation row hrow)

/-- New values leave an organisation its id, and so its rows their organisation. -/
theorem orphansNone_updateOrganization (organizationId : JSString) (name slug : Option JSString) :
    (updateOrganization organizationId name slug).Frames OrphansNone := by
  refine updateOrganization_frames OrphansNone.refl fun tables organization hupdate h => ?_
  have hkept : ∀ {id}, HasOrganization tables id →
      HasOrganization { tables with organization } id := by
    intro id hexists
    obtain ⟨row, hrow, hid⟩ := hexists
    refine ⟨Table.setWhere (isOrganization organizationId) (withValues name slug) row, ?_, ?_⟩
    · rw [show (_ : Tables).organization.rows = organization.rows from rfl,
        (Table.update_eq_some.mp hupdate).2]
      exact List.mem_map_of_mem hrow
    · unfold Table.setWhere
      split <;> exact hid
  exact ⟨fun row hrow => hkept (h.member row hrow), fun row hrow => hkept (h.invitation row hrow)⟩

/-- The members and the invitations of a deleted organisation go with it, in the one
transaction. -/
theorem orphansNone_deleteOrganization (organizationId : JSString) :
    (deleteOrganization organizationId).Frames OrphansNone := by
  refine deleteOrganization_frames fun tables h => ?_
  have hkept : ∀ {id}, id ≠ organizationId → HasOrganization tables id →
      ∃ row ∈ (tables.organization.delete (isOrganization organizationId)).rows, row.id = id := by
    intro id hother hexists
    obtain ⟨row, hrow, hid⟩ := hexists
    refine ⟨row, List.mem_filter.mpr ⟨hrow, ?_⟩, hid⟩
    rw [isOrganization, beq_false_of_ne (hid ▸ hother)]
    rfl
  constructor
  · intro row hrow
    obtain ⟨hmem, hother⟩ := List.mem_filter.mp hrow
    exact hkept (by simpa [ofOrganization] using hother) (h.member row hmem)
  · intro row hrow
    obtain ⟨hmem, hother⟩ := List.mem_filter.mp hrow
    exact hkept (by simpa [invitedTo] using hother) (h.invitation row hmem)

/-! ## A call -/

section Calls

variable {formats : Formats} {flatten : ResourceKey → Operation → Value → Value} {call : Call}
  {tables : Tables} {row : InvitationRow}

/-- An identity handler that is not `member.create` orphans nothing, whatever its payload.
-/
theorem orphansNone_of_handler (hhandler : call.entry ∈ identityHandlers formats flatten)
    (hother : ¬ (call.entry.resource = str "member" ∧ call.entry.operation = .create)) :
    (call.entry.execute call.ctx call.payload call.ambient).Frames OrphansNone := by
  obtain ⟨entry, ctx, payload, ambient, faults⟩ := call
  simp only [identityHandlers, List.mem_cons, List.not_mem_nil, or_false] at hhandler
  have hrefl := OrphansNone.refl
  rcases hhandler with rfl | rfl | rfl | rfl | rfl | rfl | rfl | rfl | rfl | rfl | rfl
  · exact handlerFor_frames fun _ _ => memberRead_frames hrefl
  · exact (hother ⟨rfl, rfl⟩).elim
  · exact handlerFor_frames fun _ _ => memberDelete_frames (orphansNone_removeMember _ _)
  · exact handlerFor_frames fun _ _ => invitationRead_frames hrefl
  · exact handlerFor_frames fun _ _ => invitationDelete_frames (orphansNone_revokeInvitation _ _)
  · exact handlerFor_frames fun _ _ => memberUpdate_frames hrefl (orphansNone_setMemberRole _ _ _)
  · exact handlerFor_frames fun _ _ => organizationRead_frames hrefl
  · exact handlerFor_frames fun _ _ =>
      organizationCreate_frames hrefl (orphansNone_createOrganization _ _ _ _ _)
  · exact handlerFor_frames fun _ _ =>
      organizationUpdate_frames hrefl (orphansNone_updateOrganization _ _ _)
  · exact handlerFor_frames fun _ _ => organizationDelete_frames (orphansNone_deleteOrganization _)
  · exact handlerFor_frames fun _ _ =>
      membershipDelete_frames hrefl fun _ => orphansNone_removeMember _ _

/-- What `member.create` does once its input is parsed: a check, and an insertion where it
finds nothing. -/
theorem follows_memberCreate (hhandler : call.entry ∈ identityHandlers formats flatten)
    (hcommand : call.entry.resource = str "member" ∧ call.entry.operation = .create) {input : Value}
    (hinput : (contractFor formats (str "member") .create).input call.payload = some input) :
    Mutation.Follows { memberCreation call.ctx input call.ambient tables with
        answer := (memberCreation call.ctx input call.ambient tables).answer.bind
          (outputOutcome (contractFor formats (str "member") .create)) } tables
      (call.entry.execute call.ctx call.payload call.ambient) := by
  have hfollows := @execute_follows formats flatten call.entry
    (@follows_of_handler formats flatten .identity _ hhandler) call.ctx call.payload input
    call.ambient tables
  rw [hcommand.1, hcommand.2] at hfollows
  exact hfollows hinput

/-- A call that comes to insert an invitation's row inserts it, and changes nothing else. -/
theorem after_of_invites (hhandler : call.entry ∈ identityHandlers formats flatten)
    (h : call.Invites formats tables row) :
    ∃ invitation, tables.invitation.insert row = some invitation ∧
      call.after tables = { tables with invitation } := by
  obtain ⟨input, hinput, huninvited, hrow⟩ := h.requested
  obtain ⟨invitation, hinsert⟩ := Table.exists_insert h.fresh
  have hfollows := @follows_memberCreate formats flatten call tables hhandler h.command input hinput
  rw [memberCreation_eq huninvited hrow] at hfollows
  have hreached : (∀ i < 1, call.faults i = none) ∧ call.faults 1 ≠ some .lost :=
    ⟨fun i hi => Nat.lt_one_iff.mp hi ▸ h.reached.1, h.reached.2⟩
  refine ⟨invitation, hinsert, ?_⟩
  rw [Call.after, hfollows.run h.fresh call.faults]
  dsimp only
  rw [if_pos hreached, hinsert]
  rfl

/-- A `member.create` that comes to insert no row leaves all the tables as they were. -/
theorem after_of_not_invites (hhandler : call.entry ∈ identityHandlers formats flatten)
    (hcommand : call.entry.resource = str "member" ∧ call.entry.operation = .create)
    (h : ∀ row, ¬ call.Invites formats tables row) : call.after tables = tables := by
  cases hinput : (contractFor formats (str "member") .create).input call.payload with
  | none =>
      have hinvalid := @execute_of_invalid formats flatten call.entry
        (@follows_of_handler formats flatten .identity _ hhandler) call.ctx call.payload
        call.ambient call.faults tables
      rw [hcommand.1, hcommand.2] at hinvalid
      obtain ⟨error, hrun⟩ := hinvalid hinput
      rw [Call.after, hrun]
  | some input =>
      have hfollows := @follows_memberCreate formats flatten call tables hhandler hcommand input hinput
      by_cases hwrites : (memberCreation call.ctx input call.ambient tables).writes
      · obtain ⟨huninvited, row, hrow⟩ := exists_row_of_writes hwrites
        rw [memberCreation_eq huninvited hrow] at hfollows hwrites
        have hunreached : ¬ ((∀ i < 1, call.faults i = none) ∧ call.faults 1 ≠ some .lost) := by
          intro hreached
          refine h row ⟨hcommand, ⟨input, hinput, huninvited, hrow⟩, hwrites, ?_⟩
          exact ⟨hreached.1 0 Nat.one_pos, hreached.2⟩
        rw [Call.after, hfollows.run hwrites call.faults]
        exact if_neg hunreached
      · exact hfollows.run_still hwrites call.faults

/-- **One call.**  It orphans nothing if what it inserts has an organisation. -/
theorem orphansNone_of_call (hhandler : call.entry ∈ identityHandlers formats flatten)
    (h : call.InvitesToExisting formats tables) : OrphansNone tables (call.after tables) := by
  by_cases hcommand : call.entry.resource = str "member" ∧ call.entry.operation = .create
  · by_cases hinvites : ∃ row, call.Invites formats tables row
    · obtain ⟨row, hinvites⟩ := hinvites
      obtain ⟨invitation, hinsert, hafter⟩ := after_of_invites hhandler hinvites
      obtain ⟨input, -, -, hrow⟩ := hinvites.requested
      rw [hafter]
      intro hno
      refine ⟨hno.member, fun other hother => ?_⟩
      rw [show other ∈ _ ↔ other ∈ invitation.rows from Iff.rfl,
        (Table.insert_eq_some.mp hinsert).2] at hother
      rcases List.mem_cons.mp hother with rfl | hother
      · rw [organizationId_requestedInvitation hrow]
        exact h other hinvites
      · exact hno.invitation other hother
    · rw [after_of_not_invites hhandler hcommand fun row hrow => hinvites ⟨row, hrow⟩]
      exact OrphansNone.refl tables
  · exact Storage.Program.run_frames OrphansNone.refl OrphansNone.trans
      (orphansNone_of_handler hhandler hcommand) call.faults tables

/-- What a call inserts is no orphan afterwards only if its organisation was there. -/
theorem invitesToExisting_of_noOrphans (hhandler : call.entry ∈ identityHandlers formats flatten)
    (hno : NoOrphans (call.after tables)) : call.InvitesToExisting formats tables := by
  intro row hinvites
  obtain ⟨invitation, hinsert, hafter⟩ := after_of_invites hhandler hinvites
  obtain ⟨input, -, -, hrow⟩ := hinvites.requested
  have hmem : row ∈ invitation.rows := by
    rw [(Table.insert_eq_some.mp hinsert).2]
    exact List.mem_cons_self
  rw [hafter] at hno
  rw [← organizationId_requestedInvitation hrow]
  exact hno.invitation row hmem

/-! ## A run -/

/-- A run whose calls all invite to organisations there are orphans nothing. -/
theorem noOrphans_of_run {start : Tables} (hstart : NoOrphans start) {history : List Call}
    (hhandlers : ∀ call ∈ history, call.entry ∈ identityHandlers formats flatten)
    (hrun : Trace.Run (fun earlier call =>
      call.InvitesToExisting formats (tablesAfter start earlier)) history) :
    NoOrphans (tablesAfter start history) := by
  induction hrun with
  | start => exact hstart
  | @next earlier call _ hexisting ih =>
      refine orphansNone_of_call (hhandlers call List.mem_cons_self) hexisting (ih ?_)
      exact fun other hother => hhandlers other (List.mem_cons_of_mem _ hother)

/-- **No orphans.**  From the empty store, every member and every invitation
belongs to an organisation there is, after every call of a run, if and only if
every invitation was inserted where its organisation was there. -/
theorem no_orphans_iff (user : Table UserRow UserRow.Clash) {history : List Call}
    (hhandlers : ∀ call ∈ history, call.entry ∈ identityHandlers formats flatten) :
    (∀ reached, reached <:+ history → NoOrphans (tablesAfter (emptyStore user) reached)) ↔
      Trace.Run (fun earlier call =>
        call.InvitesToExisting formats (tablesAfter (emptyStore user) earlier)) history := by
  constructor
  · intro hno
    induction history with
    | nil => exact .start
    | cons call earlier ih =>
        refine .next (ih ?_ ?_) ?_
        · exact fun other hother => hhandlers other (List.mem_cons_of_mem _ hother)
        · exact fun reached hreached => hno reached (hreached.trans (List.suffix_cons _ _))
        · exact invitesToExisting_of_noOrphans (hhandlers call List.mem_cons_self)
            (hno (call :: earlier) (List.suffix_refl _))
  · intro hrun reached hreached
    obtain ⟨later, rfl⟩ := hreached
    have hreached : ∀ call ∈ reached, call.entry ∈ identityHandlers formats flatten :=
      fun call hcall => hhandlers call (List.mem_append_right _ hcall)
    exact noOrphans_of_run (emptyStore_noOrphans user) hreached hrun.of_append

end Calls

/-! ## An invitation to an organisation that is gone -/

section Demonstration

/-- The owner of the organisation the calls below are about. -/
def acmeOwner : ServiceContext :=
  { requestId := str "r1", orgId := str "0", userId := str "u1", role := .owner,
    plan := str "free", deadlineAt := 0 }

/-- A call of the owner's. -/
def ownerCall (resource : ResourceKey) (operation : Operation) (logic : Logic) (payload : Value) :
    Call :=
  { entry := handlerFor roughFormats (fun _ _ _ => .null) resource operation logic
    ctx := acmeOwner
    payload
    ambient := idleAmbient
    faults := fun _ => none }

def openAcme : Call :=
  ownerCall (str "organization") .create organizationCreate
    (.object [(str "name", .string (str "Acme")), (str "slug", .string (str "acme"))])

def inviteBob : Call :=
  ownerCall (str "member") .create memberCreate
    (.object [(str "email", .string (str "b@o1.io")), (str "role", .string (str "member"))])

def closeAcme : Call :=
  ownerCall (str "organization") .delete organizationDelete (.object [])

/-- The three calls of the example are all ones that the service admits. -/
theorem ownerCalls_admitted :
    ∀ call ∈ [openAcme, inviteBob, closeAcme], call.Admitted roughFormats fun _ _ _ => .null := by
  intro call hcall
  simp only [List.mem_cons, List.not_mem_nil, or_false] at hcall
  rcases hcall with rfl | rfl | rfl
  · exact ⟨by simp [identityHandlers, openAcme, ownerCall], by decide, by decide⟩
  · exact ⟨by simp [identityHandlers, inviteBob, ownerCall], by decide, by decide⟩
  · exact ⟨by simp [identityHandlers, closeAcme, ownerCall], by decide, by decide⟩

/-- The command is accepted before the deletion and executed after it, and its row is an
orphan. -/
theorem late_invitation_orphaned :
    (∀ call ∈ [openAcme, inviteBob, closeAcme],
      call.Admitted roughFormats fun _ _ _ => .null) ∧
      HasOrganization (tablesAfter (emptyStore default) [openAcme]) acmeOwner.orgId ∧
      ¬ NoOrphans (tablesAfter (emptyStore default) [inviteBob, closeAcme, openAcme]) := by
  refine ⟨ownerCalls_admitted, by decide, fun hno => ?_⟩
  have horphan : ∃ row ∈ (tablesAfter (emptyStore default)
      [inviteBob, closeAcme, openAcme]).invitation.rows,
      ¬ HasOrganization (tablesAfter (emptyStore default) [inviteBob, closeAcme, openAcme])
        row.organizationId := by decide
  obtain ⟨row, hrow, hgone⟩ := horphan
  exact hgone (hno.invitation row hrow)

/-- Executed before the deletion, the command orphans nothing at any point of the run. -/
theorem timely_invitation_housed :
    (∀ call ∈ [closeAcme, inviteBob, openAcme],
      call.entry ∈ identityHandlers roughFormats fun _ _ _ => .null) ∧
    ∀ reached, reached <:+ [closeAcme, inviteBob, openAcme] →
      NoOrphans (tablesAfter (emptyStore default) reached) := by
  have hhandlers : ∀ call ∈ [closeAcme, inviteBob, openAcme],
      call.entry ∈ identityHandlers roughFormats fun _ _ _ => .null := by
    intro call hcall
    refine (ownerCalls_admitted call ?_).handler
    simp only [List.mem_cons, List.not_mem_nil, or_false] at hcall ⊢
    tauto
  refine ⟨hhandlers, (no_orphans_iff default hhandlers).mpr ?_⟩
  refine .next (.next (.next .start ?_) ?_) ?_
  · intro row hinvites
    exact absurd hinvites.command (by decide)
  · intro row _
    decide
  · intro row hinvites
    exact absurd hinvites.command (by decide)

end Demonstration

end Guardrail
