import GuardrailPlatform.Mutations

/-!
# Invitations

`member.create` answers `accepted` when an invitation of the address is pending,
and inserts one otherwise.  Pending is all it asks: not whether the invitation
has expired, and not which role it is for.

Its answer stands for an invitation as asked, then, where it inserts the row,
and where one of the pending rows happens to be such an invitation.
-/

namespace Guardrail

open Js
open Storage (Faults Table)
open Storage.Program (refuse bind_assoc run_query_bind run_perform_bind run_call_returned)
open IdentityService

/-- A pending invitation of the address in the role, good beyond `t`. -/
structure InvitationRow.Stands (row : InvitationRow) (organizationId email role : JSString)
    (t : Instant) : Prop where
  organization : row.organizationId = organizationId
  email : row.email = email
  pending : row.status = str "pending"
  role : row.role = some role
  unexpired : (Timestamp.ofInstant t).order < row.expiresAt.order

instance (row : InvitationRow) (organizationId email role : JSString) (t : Instant) :
    Decidable (row.Stands organizationId email role t) :=
  decidable_of_iff (row.organizationId = organizationId ∧ row.email = email ∧
    row.status = str "pending" ∧ row.role = some role ∧
    (Timestamp.ofInstant t).order < row.expiresAt.order)
    ⟨fun h => ⟨h.1, h.2.1, h.2.2.1, h.2.2.2.1, h.2.2.2.2⟩,
      fun h => ⟨h.organization, h.email, h.pending, h.role, h.unexpired⟩⟩

/-- The invitation a `member.create` asks for, there at `t`. -/
def HasRequested (ctx : ServiceContext) (input : Value) (t : Instant) (tables : Tables) : Prop :=
  ∃ row ∈ tables.invitation.rows,
    row.Stands ctx.orgId (input.text (str "email")) (input.text (str "role")) t

instance (ctx : ServiceContext) (input : Value) (t : Instant) (tables : Tables) :
    Decidable (HasRequested ctx input t tables) :=
  inferInstanceAs (Decidable (∃ row ∈ tables.invitation.rows, row.Stands _ _ _ t))

/-- A row that stands for the address, pending in the organisation, is found by the
handler's check. -/
theorem invited_of_stands {ctx : ServiceContext} {email role : JSString} {t : Instant}
    {tables : Tables} {row : InvitationRow} (hrow : row ∈ tables.invitation.rows)
    (h : row.Stands ctx.orgId email role t) : invited ctx tables email = true := by
  refine List.any_eq_true.mpr ⟨row, List.mem_filter.mpr ⟨hrow, ?_⟩, beq_iff_eq.mpr h.email⟩
  rw [invitedTo, Bool.and_eq_true]
  exact ⟨beq_iff_eq.mpr h.organization, beq_iff_eq.mpr h.pending⟩

/-! ## The row and the write -/

section Creation

variable {ctx : ServiceContext} {input : Value} {ambient : Ambient} {tables : Tables}
  {row : InvitationRow}

/-- An invitation is to the organisation of the member who asks for it, whatever the body
says. -/
theorem organizationId_requestedInvitation
    (h : requestedInvitation ctx input ambient = some row) : row.organizationId = ctx.orgId := by
  obtain ⟨expiresAt, -, rfl⟩ := Option.map_eq_some_iff.mp h
  rfl

/-- The row a `member.create` asks for stands as long as it has not expired. -/
theorem stands_requestedInvitation (h : requestedInvitation ctx input ambient = some row) {t : Instant} :
    row.Stands ctx.orgId (input.text (str "email")) (input.text (str "role")) t ↔
      (Timestamp.ofInstant t).order < row.expiresAt.order := by
  obtain ⟨expiresAt, -, rfl⟩ := Option.map_eq_some_iff.mp h
  exact ⟨fun hstands => hstands.unexpired, fun hunexpired => ⟨rfl, rfl, rfl, rfl, hunexpired⟩⟩

/-- Where no invitation of the address is pending, handling makes one check and, if no row
clashes, one insertion. -/
theorem memberCreation_eq
    (huninvited : invited ctx tables (input.text (str "email")) = false)
    (hrow : requestedInvitation ctx input ambient = some row) :
    memberCreation ctx input ambient tables =
      { checks := 1, reads := 0, writes := ∀ old ∈ tables.invitation.rows, ¬ row.Clash old,
        written := (tables.invitation.insert row).elim tables fun invitation =>
          { tables with invitation },
        answers := True, answer := .returned (acceptedValue ctx.requestId) } := by
  rw [memberCreation, huninvited, if_neg Bool.false_ne_true, invitationCreation, hrow]
  rfl

/-- A `member.create` writes only where the address has no pending invitation and a row can
be made. -/
theorem exists_row_of_writes
    (h : (memberCreation ctx input ambient tables).writes) :
    invited ctx tables (input.text (str "email")) = false ∧
      ∃ row, requestedInvitation ctx input ambient = some row := by
  cases hinvited : invited ctx tables (input.text (str "email")) with
  | true =>
      rw [memberCreation, hinvited, if_pos rfl] at h
      exact h.elim
  | false =>
      refine ⟨rfl, ?_⟩
      rw [memberCreation, hinvited, if_neg Bool.false_ne_true, invitationCreation] at h
      cases hrow : requestedInvitation ctx input ambient with
      | none =>
          rw [hrow] at h
          exact h.elim
      | some row => exact ⟨row, rfl⟩

end Creation

/-! ## The answer -/

/-- `member.create`, handled. -/
def executeMemberCreate (formats : Formats) (flatten : ResourceKey → Operation → Value → Value)
    (ctx : ServiceContext) (payload : Value) (ambient : Ambient) : Storing Value :=
  (handlerFor formats flatten (str "member") .create memberCreate).execute ctx payload ambient

section Answers

variable {formats : Formats} {flatten : ResourceKey → Operation → Value → Value}
  {ctx : ServiceContext} {payload input : Value} {ambient : Ambient} {tables : Tables}
  {faults : Faults}

/-- What follows the check. -/
def afterCheck (formats : Formats) (ctx : ServiceContext) (input : Value) (ambient : Ambient)
    (existing : List InvitationRow) : Storing Value :=
  (if existing.any (·.email == input.text (str "email")) then pure (acceptedValue ctx.requestId)
    else do
      let created ← createInvitation (requestedInvitation ctx input ambient)
      match created with
      | none => refuse (serviceError .internal (str "The invitation was not created."))
      | some _ => pure (acceptedValue ctx.requestId)) >>=
    parseOutput (contractFor formats (str "member") .create)

/-- The handler reads the organisation's pending invitations, and decides after that what to
do. -/
theorem executeMemberCreate_eq
    (hinput : (contractFor formats (str "member") .create).input payload = some input) :
    executeMemberCreate formats flatten ctx payload ambient =
      invitations ctx.orgId >>= afterCheck formats ctx input ambient := by
  rw [executeMemberCreate, handlerFor_accepts hinput]
  exact bind_assoc _ _ _

/-- Where the address has a pending invitation, the command is acknowledged and
nothing written. -/
theorem afterCheck_of_invited
    (h : invited ctx tables (input.text (str "email")) = true) :
    afterCheck formats ctx input ambient (tables.invitation.select fun row =>
      invitedTo ctx.orgId row && row.status == str "pending") = pure (acceptedValue ctx.requestId) := by
  rw [invited] at h
  rw [afterCheck, if_pos h]
  rfl

/-- Where the address has no pending invitation, the handler goes on to insert one. -/
theorem afterCheck_of_uninvited
    (h : invited ctx tables (input.text (str "email")) = false) :
    afterCheck formats ctx input ambient (tables.invitation.select fun row =>
      invitedTo ctx.orgId row && row.status == str "pending") =
      createInvitation (requestedInvitation ctx input ambient) >>= fun created =>
        match created with
        | none => refuse (serviceError .internal (str "The invitation was not created."))
        | some _ => pure (acceptedValue ctx.requestId) := by
  rw [invited] at h
  rw [afterCheck, h, if_neg Bool.false_ne_true, bind_assoc]
  congr 1
  funext created
  cases created <;> rfl

/-- Where an invitation of the address is pending, the call is acknowledged and nothing is
written. -/
theorem run_of_invited
    (hinput : (contractFor formats (str "member") .create).input payload = some input)
    (hcheck : faults 0 = none) (hinvited : invited ctx tables (input.text (str "email")) = true) :
    (executeMemberCreate formats flatten ctx payload ambient).run faults tables =
      (.returned (acceptedValue ctx.requestId), tables) := by
  rw [executeMemberCreate_eq hinput, invitations, run_query_bind hcheck,
    afterCheck_of_invited hinvited]
  rfl

/-- Where none is, and the insert goes through, the row is there afterwards. -/
theorem run_of_inserted {row : InvitationRow}
    (hinput : (contractFor formats (str "member") .create).input payload = some input)
    (hcheck : faults 0 = none) (huninvited : invited ctx tables (input.text (str "email")) = false)
    (hwrite : faults 1 = none) (hrow : requestedInvitation ctx input ambient = some row)
    (hfresh : ∀ old ∈ tables.invitation.rows, ¬ row.Clash old) :
    ∃ invitation, tables.invitation.insert row = some invitation ∧
      (executeMemberCreate formats flatten ctx payload ambient).run faults tables =
        (.returned (acceptedValue ctx.requestId), { tables with invitation }) := by
  obtain ⟨invitation, hinsert⟩ := Table.exists_insert hfresh
  refine ⟨invitation, hinsert, ?_⟩
  have hstatement : ((tables.invitation.insert row).map fun invitation =>
      (some row, { tables with invitation })) = some (some row, { tables with invitation }) := by
    rw [hinsert]
    rfl
  rw [executeMemberCreate_eq hinput, invitations, run_query_bind hcheck,
    afterCheck_of_uninvited huninvited, hrow, createInvitation, run_perform_bind hwrite hstatement]
  rfl

/-- An answer means that the check went through and, where it found nothing, that the
insertion did too. -/
theorem reached_of_accepted {answer : Value}
    (hinput : (contractFor formats (str "member") .create).input payload = some input)
    (h : ((executeMemberCreate formats flatten ctx payload ambient).run faults tables).1 =
      .returned answer) :
    faults 0 = none ∧ (invited ctx tables (input.text (str "email")) = false → faults 1 = none ∧
      ∃ row, requestedInvitation ctx input ambient = some row ∧
        ∀ old ∈ tables.invitation.rows, ¬ row.Clash old) := by
  rw [executeMemberCreate_eq hinput] at h
  have hcheck := (run_call_returned h).1
  refine ⟨hcheck, fun huninvited => ?_⟩
  rw [invitations, run_query_bind hcheck, afterCheck_of_uninvited huninvited] at h
  cases hrow : requestedInvitation ctx input ambient with
  | none =>
      rw [hrow] at h
      cases h
  | some row =>
      rw [hrow] at h
      obtain ⟨hwrite, created, after, hstatement, -⟩ := run_call_returned h
      obtain ⟨invitation, hinsert, -⟩ := Option.map_eq_some_iff.mp hstatement
      exact ⟨hwrite, row, rfl, (Table.insert_eq_some.mp hinsert).1⟩

/-- Is the invitation that is asked for there already, or about to be? -/
def AcknowledgesTruly (faults : Faults) (ctx : ServiceContext) (input : Value) (ambient : Ambient)
    (tables : Tables) (t : Instant) : Prop :=
  faults 0 = none →
    if invited ctx tables (input.text (str "email")) then HasRequested ctx input t tables
    else faults 1 = none → ∀ row, requestedInvitation ctx input ambient = some row →
      (∀ old ∈ tables.invitation.rows, ¬ row.Clash old) →
        (Timestamp.ofInstant t).order < row.expiresAt.order

/-- **An acknowledged invitation.**  Where `accepted` is answered at `t`, a
pending invitation of the address in the role, good beyond `t`, is there
afterwards if and only if one of those that were pending already is one, or
none was and the new one is still good. -/
theorem invitation_acknowledged_iff (t : Instant)
    (hinput : (contractFor formats (str "member") .create).input payload = some input) :
    (((executeMemberCreate formats flatten ctx payload ambient).run faults tables).1 =
        .returned (acceptedValue ctx.requestId) →
      HasRequested ctx input t
        ((executeMemberCreate formats flatten ctx payload ambient).run faults tables).2) ↔
      AcknowledgesTruly faults ctx input ambient tables t := by
  constructor
  · intro hkept hcheck
    cases hinvited : invited ctx tables (input.text (str "email")) with
    | true =>
        have hrun := @run_of_invited formats flatten ctx payload input ambient tables faults hinput
          hcheck hinvited
        rw [hrun] at hkept
        exact hkept rfl
    | false =>
        intro hwrite row hrow hfresh
        obtain ⟨invitation, hinsert, hrun⟩ := @run_of_inserted formats flatten ctx payload input
          ambient tables faults row hinput hcheck hinvited hwrite hrow hfresh
        rw [hrun] at hkept
        obtain ⟨other, hother, hstands⟩ := hkept rfl
        rw [show other ∈ _ ↔ other ∈ invitation.rows from Iff.rfl,
          (Table.insert_eq_some.mp hinsert).2] at hother
        rcases List.mem_cons.mp hother with rfl | hother
        · exact hstands.unexpired
        · -- no row that was there before is pending for the address
          rw [invited_of_stands hother hstands] at hinvited
          cases hinvited
  · intro htrue haccepted
    obtain ⟨hcheck, hinserted⟩ := reached_of_accepted hinput haccepted
    have hcondition := htrue hcheck
    cases hinvited : invited ctx tables (input.text (str "email")) with
    | true =>
        rw [hinvited, if_pos rfl] at hcondition
        rw [run_of_invited hinput hcheck hinvited]
        exact hcondition
    | false =>
        rw [hinvited, if_neg Bool.false_ne_true] at hcondition
        obtain ⟨hwrite, row, hrow, hfresh⟩ := hinserted hinvited
        obtain ⟨invitation, hinsert, hrun⟩ := @run_of_inserted formats flatten ctx payload input
          ambient tables faults row hinput hcheck hinvited hwrite hrow hfresh
        rw [hrun]
        refine ⟨row, ?_, (stands_requestedInvitation hrow).mpr (hcondition hwrite row hrow hfresh)⟩
        rw [show row ∈ _ ↔ row ∈ invitation.rows from Iff.rfl, (Table.insert_eq_some.mp hinsert).2]
        exact List.mem_cons_self

end Answers

/-! ## An invitation that has expired -/

section Demonstration

/-- An invitation that ended at the epoch, and that nobody took. -/
def expiredInvitation : InvitationRow :=
  { id := str "i1", organizationId := str "o1", email := str "b@o1.io", role := some (str "member"),
    status := str "pending", expiresAt := .ofInstant epoch, inviterId := str "u1" }

def staleInvited : Tables :=
  { (default : Tables) with invitation := ⟨[expiredInvitation], List.pairwise_singleton _ _⟩ }

def invitingOwner : ServiceContext :=
  { requestId := str "r1", orgId := str "o1", userId := str "u1", role := .owner,
    plan := str "free", deadlineAt := 0 }

/-- The same address is invited in the same role. -/
def inviteAgain : Value :=
  .object [(str "email", .string (str "b@o1.io")), (str "role", .string (str "member"))]

def anHourIn : Instant := ⟨60 * 60 * 1000, by decide⟩

/-- That is handled an hour after the epoch. -/
def invitedAgain : Storing Value :=
  executeMemberCreate roughFormats (fun _ _ _ => .null) invitingOwner inviteAgain
    { idleAmbient with clock := fun _ => anHourIn }

/-- The second invitation is acknowledged although the pending one has expired, so there is
none to take. -/
theorem expired_invitation_acknowledged :
    (contractFor roughFormats (str "member") .create).input inviteAgain = some inviteAgain ∧
      (invitedAgain.run (fun _ => none) staleInvited).1 =
        .returned (acceptedValue invitingOwner.requestId) ∧
      ¬ HasRequested invitingOwner inviteAgain anHourIn (invitedAgain.run (fun _ => none) staleInvited).2 :=
  ⟨rfl, rfl, by decide⟩

/-- Where nobody has been invited yet, an invitation that is acknowledged is there to take.
-/
theorem first_invitation_there :
    (contractFor roughFormats (str "member") .create).input inviteAgain = some inviteAgain ∧
    ((invitedAgain.run (fun _ => none) default).1 = .returned (acceptedValue invitingOwner.requestId) →
      HasRequested invitingOwner inviteAgain anHourIn (invitedAgain.run (fun _ => none) default).2) := by
  refine ⟨rfl, (invitation_acknowledged_iff anHourIn rfl).mpr ?_⟩
  intro _ _ row hrow _
  obtain rfl := Option.some.inj hrow
  decide

end Demonstration

end Guardrail
