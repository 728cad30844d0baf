import GuardrailPlatform.Installation
import GuardrailPlatform.GrantedRoles
import GuardrailPlatform.RoleColumn
import GuardrailPlatform.SchemaTexts

/-!
# Where roles come from

A role is a text in a row; whoever writes the row decides it.  Three parties
write rows, at moments nobody coordinates, under roles that may be gone by then.
Still, every role anybody holds in an organisation can be followed back.

Its founder holds the highest role there, and nobody else has one to begin with:
a member who did not found it accepted an invitation to it, an invitation names
the role its sender's call asked for, and a role that was changed since is the
one that the changing call asked for (`Warranted`).  Each such call was made by a
member whom the gateway had identified with at least that role, one that was
warranted in turn.

A program carries what its rows may be from its first statement to its last, so
what is warranted when a message is admitted is still warranted when its handler
writes (`Joins`, `Invites`).
-/

namespace Guardrail

open Js
open Storage (Program Table)
open Storage.Program (Frames)
open IdentityService

/-! ## New rows -/

/-- Every member and invitation row is an old one, or new and of this kind. -/
structure Adds (joins : Tables → MemberRow → Prop) (invites : InvitationRow → Prop)
    (before after : Tables) : Prop where
  members : ∀ row ∈ after.member.rows, row ∈ before.member.rows ∨ joins before row
  invitations : ∀ row ∈ after.invitation.rows, row ∈ before.invitation.rows ∨ invites row

section Adds

variable {joins joins' : Tables → MemberRow → Prop} {invites invites' : InvitationRow → Prop}
  {before after : Tables} {organizationId : JSString}

/-- Tables that stay as they are add no row of any kind. -/
theorem Adds.refl (joins : Tables → MemberRow → Prop) (invites : InvitationRow → Prop)
    (tables : Tables) : Adds joins invites tables tables :=
  ⟨fun _ h => .inl h, fun _ h => .inl h⟩

/-- A statement that leaves both the members and the invitations as they are adds no row of
any kind. -/
theorem Adds.of_same (hmember : after.member = before.member)
    (hinvitation : after.invitation = before.invitation) : Adds joins invites before after where
  members _ hrow := .inl (hmember ▸ hrow)
  invitations _ hrow := .inl (hinvitation ▸ hrow)

/-- What adds rows of one kind adds rows of any wider kind. -/
theorem Adds.mono (h : Adds joins invites before after)
    (hjoins : ∀ row, joins before row → joins' before row)
    (hinvites : ∀ row, invites row → invites' row) : Adds joins' invites' before after where
  members row hrow := (h.members row hrow).imp_right (hjoins row)
  invitations row hrow := (h.invitations row hrow).imp_right (hinvites row)

/-- A deletion of a member adds no row, and so no role. -/
theorem removeMember_adds (memberId : JSString) :
    (removeMember organizationId memberId).Frames (Adds joins invites) :=
  removeMember_frames fun _ =>
    ⟨fun _ hrow => .inl (List.mem_filter.mp hrow).1, fun _ hrow => .inl hrow⟩

/-- A deletion of an invitation adds no row, and so no role. -/
theorem revokeInvitation_adds (id : JSString) :
    (revokeInvitation organizationId id).Frames (Adds joins invites) :=
  revokeInvitation_frames fun _ =>
    ⟨fun _ hrow => .inl hrow, fun _ hrow => .inl (List.mem_filter.mp hrow).1⟩

theorem deleteOrganization_adds :
    (deleteOrganization organizationId).Frames (Adds joins invites) :=
  deleteOrganization_frames fun _ => ⟨fun _ hrow => .inl (List.mem_filter.mp hrow).1,
    fun _ hrow => .inl (List.mem_filter.mp hrow).1⟩

theorem updateOrganization_adds (name slug : Option JSString) :
    (updateOrganization organizationId name slug).Frames (Adds joins invites) :=
  updateOrganization_frames (Adds.refl joins invites) fun _ _ _ => .of_same rfl rfl

/-- An invitation that is stored is the one that was asked for. -/
theorem createInvitation_adds {requested : Option InvitationRow}
    (hinvites : ∀ row, requested = some row → invites row) :
    (createInvitation requested).Frames (Adds joins invites) := by
  apply createInvitation_frames
  intro tables invited invitation hnew hinsert
  refine ⟨fun _ hold => .inl hold, ?_⟩
  intro row hrow
  rw [(Table.insert_eq_some.mp hinsert).2] at hrow
  rcases List.mem_cons.mp hrow with rfl | hold
  · exact .inr (hinvites row hnew)
  · exact .inl hold

/-- A role change leaves the named row of the organisation with another role. -/
theorem setMemberRole_adds {memberId role : JSString}
    (hjoins : ∀ tables : Tables, ∀ old ∈ tables.member.rows,
      old.organizationId = organizationId → old.id = memberId → joins tables (withRole role old)) :
    (setMemberRole organizationId memberId role).Frames (Adds joins invites) := by
  apply setMemberRole_frames (Adds.refl joins invites)
  intro tables member hupdate
  refine ⟨?_, fun _ hrow => .inl hrow⟩
  intro changed hchanged
  rw [(Table.update_eq_some.mp hupdate).2] at hchanged
  obtain ⟨old, hold, rfl⟩ := List.mem_map.mp hchanged
  by_cases hnamed : isMember organizationId memberId old = true
  · right
    rw [Table.setWhere, if_pos hnamed]
    obtain ⟨hin, hid⟩ := Bool.and_eq_true_iff.mp hnamed
    exact hjoins tables old hold (beq_iff_eq.mp hin) (beq_iff_eq.mp hid)
  · left
    rw [Table.setWhere, if_neg hnamed]
    exact hold

/-- An organisation is stored with its first member, the only new row there is. -/
theorem createOrganization_adds {row : OrganizationRow} {first : MemberRow}
    (hjoins : ∀ tables, joins tables first) :
    (createOrganization row first).Frames (Adds joins invites) := by
  apply createOrganization_frames
  intro tables organization member _ hinsert
  refine ⟨?_, fun _ hrow => .inl hrow⟩
  intro added hadded
  rw [(Table.insert_eq_some.mp hinsert).2] at hadded
  rcases List.mem_cons.mp hadded with rfl | hold
  · exact .inr (hjoins tables)
  · exact .inl hold

end Adds

/-- Where a call names whom it gives a role to: by address, or by the id of a member. -/
def granteeKey : Operation → JSString
  | .create => str "email"
  | _ => str "memberId"

/-- A member row that a handler leaves and did not find. -/
inductive NewMember (entry : HandlerEntry Handling) (ctx : ServiceContext) (payload : Value)
    (ambient : Ambient) (before : Tables) : MemberRow → Prop
  /-- The owner of the organisation that `organization.create` founds. -/
  | founder (hentry : entry.resource = str "organization" ∧ entry.operation = .create) :
      NewMember entry ctx payload ambient before (requestedOwner ctx ambient)
  /-- The member of the caller's organisation whom `member.update` names, with the role
  it names. -/
  | changed {old : MemberRow} {name : JSString}
      (hentry : entry.resource = str "member" ∧ entry.operation = .update)
      (hgrantee : payload.text? (granteeKey .update) = some old.id)
      (hnamed : namedRole payload = some name) (hold : old ∈ before.member.rows)
      (hin : old.organizationId = ctx.orgId) :
      NewMember entry ctx payload ambient before (withRole name old)

/-- An invitation that a handler stores: to the caller's organisation, of the address
and with the role that `member.create` names. -/
structure NewInvitation (entry : HandlerEntry Handling) (ctx : ServiceContext) (payload : Value)
    (row : InvitationRow) : Prop where
  entry : entry.resource = str "member" ∧ entry.operation = .create
  grantee : payload.text? (granteeKey .create) = some row.email
  named : ∃ name, namedRole payload = some name ∧ row.role = some name
  organizationId : row.organizationId = ctx.orgId

section Execute

variable {formats : Formats} {flatten : ResourceKey → Operation → Value → Value}
  {entry : HandlerEntry Handling} {ctx : ServiceContext} {payload : Value} {ambient : Ambient}

theorem billing_frames {frame : Tables → Tables → Prop}
    (hentry : entry ∈ billingHandlers formats flatten) :
    (entry.execute ctx payload ambient).Frames frame := by
  simp only [billingHandlers, List.mem_cons, List.not_mem_nil, or_false] at hentry
  rcases hentry with rfl | rfl
  · apply handlerFor_frames
    intro input _
    unfold billingRead
    cases ambient.entitlements <;> trivial
  · apply handlerFor_frames
    intro input _
    unfold billingManage
    cases ambient.checkout <;> trivial

/-- The handlers of the services other than identity write neither members nor invitations.
-/
theorem execute_frames_of_same {frame : Tables → Tables → Prop} {name : ServiceName}
    (hname : name ≠ .identity) (hentry : entry ∈ handlersOf formats flatten name)
    (hsame : ∀ before after : Tables, after.member = before.member →
      after.invitation = before.invitation → frame before after) :
    (entry.execute ctx payload ambient).Frames frame := by
  have hrefl : ∀ tables, frame tables tables := fun tables => hsame tables tables rfl rfl
  cases name with
  | identity => exact absurd rfl hname
  | projects =>
      simp only [handlersOf, projectHandlers, List.mem_cons, List.not_mem_nil, or_false] at hentry
      rcases hentry with rfl | rfl | rfl | rfl
      · exact handlerFor_frames fun _ _ => projectRead_frames hrefl _
      · exact handlerFor_frames fun _ _ =>
          projectCreate_frames hrefl (create_frames fun _ _ _ => hsame _ _ rfl rfl)
      · exact handlerFor_frames fun _ _ =>
          projectUpdate_frames (update_frames fun _ _ _ => hsame _ _ rfl rfl)
      · exact handlerFor_frames fun _ _ =>
          projectDelete_frames (remove_frames fun _ => hsame _ _ rfl rfl)
  | billing =>
      exact billing_frames hentry
  | audit =>
      simp only [handlersOf, auditHandlers, List.mem_cons, List.not_mem_nil, or_false] at hentry
      obtain rfl := hentry
      exact handlerFor_frames fun _ _ => auditLogRead_frames hrefl

/-- **Every handler.**  New rows carry the role the payload names, or found an
organisation with its owner. -/
theorem execute_adds {name : ServiceName} (hentry : entry ∈ handlersOf formats flatten name) :
    (entry.execute ctx payload ambient).Frames
      (Adds (NewMember entry ctx payload ambient) (NewInvitation entry ctx payload)) := by
  by_cases hname : name = .identity
  · obtain rfl := hname
    simp only [handlersOf, identityHandlers, List.mem_cons, List.not_mem_nil, or_false] at hentry
    have hrefl := Adds.refl (NewMember entry ctx payload ambient) (NewInvitation entry ctx payload)
    rcases hentry with rfl | rfl | rfl | rfl | rfl | rfl | rfl | rfl | rfl | rfl | rfl
    · exact handlerFor_frames fun _ _ => memberRead_frames hrefl
    · refine handlerFor_frames fun input hinput =>
        memberCreate_frames hrefl (createInvitation_adds fun row hrow => ?_)
      obtain ⟨name, hnamed, -, htext⟩ := role_of_takesRole (takesRole_member (.inl rfl)) hinput
      obtain ⟨expiresAt, -, rfl⟩ := Option.map_eq_some_iff.mp hrow
      exact ⟨⟨rfl, rfl⟩, text_given hinput rfl, ⟨name, hnamed, congrArg some htext⟩, rfl⟩
    · exact handlerFor_frames fun _ _ => memberDelete_frames (removeMember_adds _)
    · exact handlerFor_frames fun _ _ => invitationRead_frames hrefl
    · exact handlerFor_frames fun _ _ => invitationDelete_frames (revokeInvitation_adds _)
    · refine handlerFor_frames fun input hinput =>
        memberUpdate_frames hrefl (setMemberRole_adds fun tables old hold hin hid => ?_)
      obtain ⟨name, hnamed, -, htext⟩ := role_of_takesRole (takesRole_member (.inr rfl)) hinput
      rw [htext]
      exact .changed ⟨rfl, rfl⟩ (hid ▸ text_given hinput rfl) hnamed hold hin
    · exact handlerFor_frames fun _ _ => organizationRead_frames hrefl
    · exact handlerFor_frames fun _ _ =>
        organizationCreate_frames hrefl (createOrganization_adds fun _ => .founder ⟨rfl, rfl⟩)
    · exact handlerFor_frames fun _ _ =>
        organizationUpdate_frames hrefl (updateOrganization_adds _ _)
    · exact handlerFor_frames fun _ _ => organizationDelete_frames deleteOrganization_adds
    · exact handlerFor_frames fun _ _ =>
        membershipDelete_frames hrefl fun _ => removeMember_adds _
  · exact execute_frames_of_same hname hentry fun _ _ => .of_same

end Execute

/-! ## Chains of grants -/

/-- Who holds a role: the member of a row, or whom an invitation is for. -/
inductive Holder
  | member (id userId : JSString)
  | invited (email : JSString)

/-- The member of this row. -/
def MemberRow.holder (row : MemberRow) : Holder := .member row.id row.userId

namespace Installation

variable (D : Installation)

/-- A message was signed for a caller: in a call that the gateway made for them,
whom it had identified for that call, in that organisation and with that role. -/
structure CalledBy (history moment : List Happening) (identity : GatewayIdentity)
    (m : RequestMeta) : Prop where
  signed : ∃ call session e signing, .onBus (.signed call e) :: signing <:+ history ∧
    .identified call session :: moment <:+ signing ∧
    identify session (D.tables moment) = some identity ∧ m.Agrees e.requestMeta
  told : m.userId = identity.userId ∧ m.orgId = identity.orgId ∧ m.role = identity.role

/-- A message was admitted, and its caller's role may give this one: the role that the
message names, for whom it names, in a call of `member.create` or `member.update`. -/
structure Grants (history moment : List Happening) (granter : GatewayIdentity)
    (operation : Operation) (grantee : JSString) (role : OrgRole) : Prop where
  admitted : ∃ d earlier b m payload, .onBus (.delivered d) :: earlier <:+ history ∧
    D.platform.screen d = .admitted b m payload ∧
    (b.entry.resource = str "member" ∧ b.entry.operation = operation) ∧
    payload.text? (granteeKey operation) = some grantee ∧ namedRole payload = some role.name ∧
    D.CalledBy earlier moment granter m
  le : roleRank role ≤ roleRank granter.role

/-- A member founded the organisation: by signing up, or by an `organization.create` that
the gateway signed for them.  The ids are those the founding has drawn. -/
inductive Founds (history : List Happening) : Holder → JSString → Prop
  | signup {n : ℕ} {created : CreatedUser} {ambient : Ambient}
      (h : .signedUp n created ambient ∈ history) :
      Founds history (.member (ambient.uuid 1) created.id) (ambient.uuid 0)
  | create {d : Delivery} {earlier moment : List Happening} {b : Binding Handling}
      {m : RequestMeta} {payload : Value} {identity : GatewayIdentity}
      (h : .onBus (.delivered d) :: earlier <:+ history)
      (hscreen : D.platform.screen d = .admitted b m payload)
      (hentry : b.entry.resource = str "organization" ∧ b.entry.operation = .create)
      (hcalled : D.CalledBy earlier moment identity m) :
      Founds history (.member ((D.ambient d.handling).uuid 1) m.userId)
        ((D.ambient d.handling).uuid 0)

/-- A role in an organisation that can be followed back to its founding, and by whom
it is held. -/
inductive Warranted : List Happening → Holder → JSString → OrgRole → Prop
  /-- Who founded the organisation holds the highest role. -/
  | founder {history : List Happening} {holder : Holder} {orgId : JSString}
      (h : D.Founds history holder orgId) : Warranted history holder orgId highestRole
  /-- Who is invited is invited by a member, at the address and to the role that the call
  names. -/
  | invited {history moment : List Happening} {granter : GatewayIdentity} {role : OrgRole}
      {email granterId : JSString} (hgrant : D.Grants history moment granter .create email role)
      (hgranter : Warranted moment (.member granterId granter.userId) granter.orgId granter.role) :
      Warranted history (.invited email) granter.orgId role
  /-- A member whom Better Auth adds has the role of an invitation that was there. -/
  | accepted {history between earlier : List Happening} {after : Tables} {row : MemberRow}
      {invitation : InvitationRow} (hwrote : .authWrote after :: between <:+ history)
      (hrow : row ∈ after.member.rows) (hnew : row ∉ (D.tables between).member.rows)
      (hearlier : earlier <:+ between)
      (hstored : invitation ∈ (D.tables earlier).invitation.rows)
      (hin : invitation.organizationId = row.organizationId)
      (hrole : invitation.role = some row.role)
      (hinvited : Warranted earlier (.invited invitation.email) row.organizationId
        (normalizeRole row.role)) :
      Warranted history row.holder row.organizationId (normalizeRole row.role)
  /-- Whose role is changed was a member before, and has the role that the call names for
  their row. -/
  | changed {history moment : List Happening} {granter : GatewayIdentity} {role held : OrgRole}
      {id userId granterId : JSString} (hgrant : D.Grants history moment granter .update id role)
      (hgranter : Warranted moment (.member granterId granter.userId) granter.orgId granter.role)
      (hheld : Warranted history (.member id userId) granter.orgId held) :
      Warranted history (.member id userId) granter.orgId role

/-- A member row that a program may store. -/
inductive Joins (history : List Happening) (before : Tables) : MemberRow → Prop
  | founder {row : MemberRow} (h : D.Founds history row.holder row.organizationId)
      (hrole : row.role = highestRole.name) : Joins history before row
  | changed {old : MemberRow} {moment : List Happening} {granter : GatewayIdentity} {role : OrgRole}
      {granterId : JSString} (hgrant : D.Grants history moment granter .update old.id role)
      (hgranter : D.Warranted moment (.member granterId granter.userId) granter.orgId granter.role)
      (hold : old ∈ before.member.rows) (hin : old.organizationId = granter.orgId) :
      Joins history before (withRole role.name old)

/-- An invitation that a program may store. -/
structure Invites (history : List Happening) (row : InvitationRow) : Prop where
  granted : ∃ moment granter granterId role,
    D.Grants history moment granter .create row.email role ∧
    D.Warranted moment (.member granterId granter.userId) granter.orgId granter.role ∧
    row.organizationId = granter.orgId ∧ row.role = some role.name

/-- Every role that is stored is warranted, and every program adds such rows only as
leave it so. -/
structure Traced (history : List Happening) : Prop where
  members : ∀ row ∈ (D.tables history).member.rows,
    D.Warranted history row.holder row.organizationId (normalizeRole row.role)
  invitations : ∀ row ∈ (D.tables history).invitation.rows, ∀ text, row.role = some text →
    D.Warranted history (.invited row.email) row.organizationId (normalizeRole text)
  threads : ∀ thread, ((D.world history).threads thread).Frames
    (Adds (D.Joins history) (D.Invites history))

variable {D} {history later : List Happening}

/-! ### As the history grows -/

theorem CalledBy.before {moment : List Happening} {identity : GatewayIdentity} {m : RequestMeta}
    (h : D.CalledBy history moment identity m) : moment <:+ history := by
  obtain ⟨call, session, e, signing, hsigned, hidentified, -⟩ := h.signed
  exact ((List.suffix_cons _ _).trans hidentified).trans ((List.suffix_cons _ _).trans hsigned)

theorem Grants.before {moment : List Happening} {granter : GatewayIdentity} {operation : Operation}
    {grantee : JSString} {role : OrgRole} (h : D.Grants history moment granter operation grantee role) :
    moment <:+ history := by
  obtain ⟨d, earlier, b, m, payload, hdelivered, -, -, -, -, hcalled⟩ := h.admitted
  exact hcalled.before.trans ((List.suffix_cons _ _).trans hdelivered)

/-- What was granted stays granted as the history grows, since it points to what was
delivered. -/
theorem Grants.mono {moment : List Happening} {granter : GatewayIdentity} {operation : Operation}
    {grantee : JSString} {role : OrgRole} (h : D.Grants history moment granter operation grantee role)
    (hle : history <:+ later) : D.Grants later moment granter operation grantee role := by
  obtain ⟨⟨d, earlier, b, m, payload, hdelivered, hrest⟩, hrank⟩ := h
  exact ⟨⟨d, earlier, b, m, payload, List.IsSuffix.trans hdelivered hle, hrest⟩, hrank⟩

/-- A founding stays one as the history grows, since it points to a signup or a delivery. -/
theorem Founds.mono {holder : Holder} {orgId : JSString} (h : D.Founds history holder orgId)
    (hle : history <:+ later) : D.Founds later holder orgId := by
  cases h with
  | signup hmem => exact .signup (hle.subset hmem)
  | create hdelivered hscreen hentry hcalled =>
      exact .create (List.IsSuffix.trans hdelivered hle) hscreen hentry hcalled

/-- A warrant is not lost as the history grows, since it points to what has happened. -/
theorem Warranted.mono {holder : Holder} {orgId : JSString} {role : OrgRole}
    (h : D.Warranted history holder orgId role) (hle : history <:+ later) :
    D.Warranted later holder orgId role := by
  induction h generalizing later with
  | founder h => exact .founder (h.mono hle)
  | invited hgrant hgranter => exact .invited (hgrant.mono hle) hgranter
  | accepted hwrote hrow hnew hearlier hstored hin hrole hinvited =>
      exact .accepted (List.IsSuffix.trans hwrote hle) hrow hnew hearlier hstored hin hrole hinvited
  | changed hgrant hgranter _ _ ihheld => exact .changed (hgrant.mono hle) hgranter (ihheld hle)

/-- A row that joined with a warrant keeps it as the history grows. -/
theorem Joins.mono {before : Tables} {row : MemberRow} (h : D.Joins history before row)
    (hle : history <:+ later) : D.Joins later before row := by
  cases h with
  | founder h hrole => exact .founder (h.mono hle) hrole
  | changed hgrant hgranter hold hin => exact .changed (hgrant.mono hle) hgranter hold hin

/-- An invitation that was sent with a warrant keeps it as the history grows. -/
theorem Invites.mono {row : InvitationRow} (h : D.Invites history row) (hle : history <:+ later) :
    D.Invites later row := by
  obtain ⟨moment, granter, granterId, role, hgrant, hrest⟩ := h.granted
  exact ⟨moment, granter, granterId, role, hgrant.mono hle, hrest⟩

/-- What the statements of a running program add is warranted in any later history too. -/
theorem Traced.threads_mono (h : D.Traced history) (hle : history <:+ later) (thread : Thread) :
    ((D.world history).threads thread).Frames (Adds (D.Joins later) (D.Invites later)) :=
  (h.threads thread).mono fun _ _ hadds =>
    hadds.mono (fun _ hjoins => hjoins.mono hle) fun _ hinvites => hinvites.mono hle

/-! ### Rows that may be stored are warranted -/

/-- A founder by the founding, a changed row by the row it was and by the change. -/
theorem Joins.warranted {row : MemberRow} (h : D.Joins history (D.tables history) row)
    (htraced : D.Traced history) :
    D.Warranted history row.holder row.organizationId (normalizeRole row.role) := by
  cases h with
  | founder h hrole =>
      rw [hrole, normalizeRole_name]
      exact .founder h
  | @changed old moment granter role _ hgrant hgranter hold hin =>
      have hheld := htraced.members old hold
      rw [hin] at hheld
      show D.Warranted history old.holder old.organizationId (normalizeRole role.name)
      rw [normalizeRole_name, hin]
      exact .changed hgrant hgranter hheld

/-- An invitation is warranted by the member who sent it, at its own address. -/
theorem Invites.warranted {row : InvitationRow} (h : D.Invites history row) {text : JSString}
    (htext : row.role = some text) :
    D.Warranted history (.invited row.email) row.organizationId (normalizeRole text) := by
  obtain ⟨moment, granter, granterId, role, hgrant, hgranter, hin, hrole⟩ := h.granted
  obtain rfl := Option.some.inj (hrole.symm.trans htext)
  rw [normalizeRole_name, hin]
  exact .invited hgrant hgranter

/-- Where anybody holds a role, be it as a member or by an invitation, somebody founded the
organisation. -/
theorem Warranted.founded {holder : Holder} {orgId : JSString} {role : OrgRole}
    (h : D.Warranted history holder orgId role) : ∃ founder, D.Founds history founder orgId := by
  induction h with
  | founder h => exact ⟨_, h⟩
  | invited hgrant _ ih =>
      obtain ⟨founder, hfounds⟩ := ih
      exact ⟨founder, hfounds.mono hgrant.before⟩
  | accepted hwrote _ _ hearlier _ _ _ _ ih =>
      obtain ⟨founder, hfounds⟩ := ih
      exact ⟨founder, hfounds.mono (hearlier.trans ((List.suffix_cons _ _).trans hwrote))⟩
  | changed _ _ _ _ ihheld => exact ihheld

/-! ### What a program may store -/

/-- The signup hook stores the user as the owner of the organisation it founds, and no other
member. -/
theorem signup_adds {n : ℕ} {created : CreatedUser} {ambient : Ambient}
    (h : .signedUp n created ambient ∈ history) :
    (D.signup created ambient).Frames (Adds (D.Joins history) (D.Invites history)) := by
  unfold signup SignupHook.after
  refine .bind (.bind (.perform ?_) fun _ => .perform ?_) fun _ => trivial
  · intro s b t hstatement
    obtain ⟨organization, -, hresult⟩ := Option.map_eq_some_iff.mp hstatement
    obtain ⟨-, rfl⟩ := Prod.mk.inj hresult
    exact .of_same rfl rfl
  · intro s b t hstatement
    obtain ⟨member, hinsert, hresult⟩ := Option.map_eq_some_iff.mp hstatement
    obtain ⟨-, rfl⟩ := Prod.mk.inj hresult
    refine ⟨?_, fun _ hrow => .inl hrow⟩
    intro row hrow
    rw [(Table.insert_eq_some.mp hinsert).2] at hrow
    rcases List.mem_cons.mp hrow with rfl | hold
    · exact .inr (.founder (.signup h) rfl)
    · exact .inl hold

/-- An envelope that the gateway signs for itself names the gateway's user and reads
billing. -/
theorem meta_of_system {crypto : Crypto} {secret orgId requestId : JSString} {issuedAt : ℤ}
    {e : Envelope} (h : signedEnvelopeFor crypto secret registry orgId (str "billing") .read
      requestId issuedAt = some e) :
    e.requestMeta.userId = str "system:gateway" ∧ e.requestMeta.resource = str "billing" ∧
      e.requestMeta.operation = .read := by
  unfold signedEnvelopeFor at h
  obtain ⟨signature, -, rfl⟩ := Option.map_eq_some_iff.mp h
  exact ⟨rfl, rfl, rfl⟩

/-- The envelope behind an admitted message, and what stood behind it when it
was signed. -/
theorem backed_of_screen (hrun : D.Run history) {d : Delivery}
    (hunforged : D.platform.Unforged (busOf history) d.raw) {b : Binding Handling} {m : RequestMeta}
    {payload : Value} (hscreen : D.platform.screen d = .admitted b m payload) :
    ∃ call e signing, .onBus (.signed call e) :: signing <:+ history ∧
      D.Backed signing call e ∧ m.Agrees e.requestMeta := by
  obtain ⟨call, e, hmem, -, hagrees, -⟩ :=
    (Platform.requestAuthentic_of_screen (busOf_run hrun) hunforged hscreen).signed
  obtain ⟨signing, hsuffix, -, hallowed⟩ := hrun.allowed_of_mem (mem_busOf.mp hmem)
  exact ⟨call, e, signing, hsuffix, hallowed.2 call e rfl, hagrees⟩

/-- The gateway's own question about an organisation's plan. -/
structure AskedBySystem (D : Installation) (history : List Happening) (b : Binding Handling)
    (m : RequestMeta) : Prop where
  signed : ∃ call e, .onBus (.signed call e) ∈ history ∧ m.Agrees e.requestMeta
  userId : m.userId = str "system:gateway"
  entry : b.entry.resource = str "billing" ∧ b.entry.operation = .read

/-- Who called: a caller the gateway identified, with a role that the operation
is open to, or the gateway itself about a plan. -/
theorem caller_of_screen (hrun : D.Run history) {d : Delivery}
    (hunforged : D.platform.Unforged (busOf history) d.raw) {b : Binding Handling} {m : RequestMeta}
    {payload : Value} (hscreen : D.platform.screen d = .admitted b m payload) :
    (∃ moment identity, D.CalledBy history moment identity m ∧
      ∃ rule, registry.ruleFor b.entry.resource b.entry.operation = some rule ∧
        roleAtLeast m.role rule.minRole = true) ∨ AskedBySystem D history b m := by
  obtain ⟨r, hpassed⟩ := passed_of_screen hscreen
  obtain ⟨call, e, signing, hsigned, hbacked, hagrees⟩ := backed_of_screen hrun hunforged hscreen
  have hm : m = { e.requestMeta with permissions := m.permissions } := hagrees.1
  rcases hbacked with ⟨session, moment, args, deps, hidentified, hidentity, hprepare⟩ |
    ⟨orgId, requestId, issuedAt, hsystem⟩
  · obtain ⟨identity, rule, hp⟩ := prepared_of_prepare hprepare
    have hcaller : identify session (D.tables moment) = some identity :=
      hidentity.symm.trans hp.identified
    have htold : m.userId = identity.userId ∧ m.orgId = identity.orgId ∧ m.role = identity.role := by
      rw [hm, hp.requestMeta]
      exact ⟨rfl, rfl, rfl⟩
    have hentry : b.entry.resource = args.resource ∧ b.entry.operation = args.operation := by
      rw [hpassed.entry.1, hpassed.entry.2, hm, hp.requestMeta]
      exact ⟨rfl, rfl⟩
    refine .inl ⟨moment, identity, ⟨⟨call, session, e, signing, hsigned, hidentified, hcaller,
      hagrees⟩, htold⟩, rule, ?_, ?_⟩
    · rw [hentry.1, hentry.2]
      exact hp.declared
    · rw [htold.2.2, ← can_permissionsForRole hp.declared]
      exact can_iff.mpr hp.permitted
  · obtain ⟨huser, hresource, hoperation⟩ := meta_of_system hsystem
    refine .inr ⟨⟨call, e, hsigned.subset List.mem_cons_self, hagrees⟩, ?_, ?_⟩
    · rw [hm]
      exact huser
    · rw [hpassed.entry.1, hpassed.entry.2, hm]
      exact ⟨hresource, hoperation⟩

/-- What is told of the caller, a member row said when they were identified. -/
theorem CalledBy.exists_row {moment : List Happening} {identity : GatewayIdentity} {m : RequestMeta}
    (h : D.CalledBy history moment identity m) : ∃ row ∈ (D.tables moment).member.rows,
      row.userId = m.userId ∧ row.organizationId = m.orgId ∧ normalizeRole row.role = m.role := by
  obtain ⟨call, session, e, signing, -, -, hcaller, -⟩ := h.signed
  obtain ⟨huser, horg, hrole⟩ := h.told
  rw [huser, horg, hrole]
  exact identify_eq_some hcaller

/-- So the role that is told of them was warranted at that moment, as that row's. -/
theorem CalledBy.warranted {moment : List Happening} {identity : GatewayIdentity} {m : RequestMeta}
    (h : D.CalledBy history moment identity m) (htraced : D.Traced moment) :
    ∃ row ∈ (D.tables moment).member.rows, row.userId = m.userId ∧ row.organizationId = m.orgId ∧
      normalizeRole row.role = m.role ∧
      D.Warranted moment (.member row.id m.userId) m.orgId m.role := by
  obtain ⟨row, hrow, huser, horg, hrole⟩ := h.exists_row
  refine ⟨row, hrow, huser, horg, hrole, ?_⟩
  rw [← huser, ← horg, ← hrole]
  exact htraced.members row hrow

/-- **A handler's grants.**  What is admitted in a run adds warranted rows only. -/
theorem handling_adds (hrun : D.Run history)
    (hpast : ∀ earlier, earlier <:+ history → D.Traced earlier) {d : Delivery}
    (hunforged : D.platform.Unforged (busOf history) d.raw) :
    (D.handling d).Frames (Adds (D.Joins (.onBus (.delivered d) :: history))
      (D.Invites (.onBus (.delivered d) :: history))) := by
  unfold handling
  cases hscreen : D.platform.screen d with
  | refused route error => trivial
  | admitted b m payload =>
      obtain ⟨r, hpassed⟩ := passed_of_screen hscreen
      have hentry : b.entry ∈ handlersOf D.formats D.flatten d.service :=
        entry_of_defineService (D.booted d.service) b hpassed.bound.1
      rcases caller_of_screen hrun hunforged hscreen with
        ⟨moment, identity, hcalled, -⟩ | hsystem
      · obtain ⟨huser, horg, hrole⟩ := hcalled.told
        obtain ⟨granter, -, -, -, -, hwarrant⟩ := hcalled.warranted (hpast moment hcalled.before)
        rw [huser, horg, hrole] at hwarrant
        -- the role a payload names is the caller's to grant
        have hgrants : ∀ operation grantee name,
            b.entry.resource = str "member" ∧ b.entry.operation = operation →
            payload.text? (granteeKey operation) = some grantee → namedRole payload = some name →
            ∃ role : OrgRole, name = role.name ∧
              D.Grants (.onBus (.delivered d) :: history) moment identity operation grantee role := by
          intro operation grantee name hof hgrantee hnamed
          obtain ⟨role, rfl, hrank⟩ :=
            grantable_of_refusedRole (hrole ▸ hpassed.unescalated) hnamed
          exact ⟨role, rfl, ⟨d, history, b, m, payload, List.suffix_refl _, hscreen, hof, hgrantee,
            hnamed, hcalled⟩, hrank⟩
        refine (execute_adds hentry).mono ?_
        intro before after hadds
        refine hadds.mono ?_ ?_
        · intro row hnew
          cases hnew with
          | founder hfounding =>
              exact .founder (.create (List.suffix_refl _) hscreen hfounding hcalled) rfl
          | changed hof hgrantee hnamed hold hin =>
              obtain ⟨role, rfl, hgrant⟩ := hgrants .update _ _ hof hgrantee hnamed
              exact .changed hgrant hwarrant hold (hin.trans horg)
        · intro row hnew
          obtain ⟨name, hnamed, hrow⟩ := hnew.named
          obtain ⟨role, rfl, hgrant⟩ := hgrants .create _ name hnew.entry hnew.grantee hnamed
          exact ⟨moment, identity, granter.id, role, hgrant, hwarrant,
            hnew.organizationId.trans horg, hrow⟩
      · have hbilling : d.service = .billing := by
          have hdeclared : registry.findRoute (str "billing") .read = some r := by
            rw [← hsystem.entry.1, ← hsystem.entry.2, hpassed.entry.1, hpassed.entry.2]
            exact hpassed.declared
          have howner := Platform.ownerOf_of_findRoute hdeclared
          have hname : r.owner = d.service := hpassed.owned.trans (D.platform.service_name d.service)
          rw [← hname]
          exact (Option.some.inj howner).symm
        apply execute_frames_of_same _ hentry fun _ _ => Adds.of_same
        rw [hbilling]
        decide

/-! ### Every step, and every run -/

/-- What leaves the tables alone keeps them traced, whatever becomes of the programs. -/
theorem Traced.of_tables {happening : Happening} (h : D.Traced history)
    (htables : D.tables (happening :: history) = D.tables history)
    (hthreads : ∀ thread, ((D.world (happening :: history)).threads thread).Frames
      (Adds (D.Joins (happening :: history)) (D.Invites (happening :: history)))) :
    D.Traced (happening :: history) := by
  have hle : history <:+ happening :: history := List.suffix_cons _ _
  refine ⟨?_, ?_, hthreads⟩
  · rw [htables]
    exact fun row hrow => (h.members row hrow).mono hle
  · rw [htables]
    exact fun row hrow text htext => (h.invitations row hrow text htext).mono hle

/-- An event that leaves the tables and the programs alone keeps both of them traced. -/
theorem Traced.of_world {happening : Happening} (h : D.Traced history)
    (hworld : D.world (happening :: history) = D.world history) :
    D.Traced (happening :: history) := by
  refine h.of_tables (congrArg (·.store) hworld) ?_
  rw [hworld]
  exact h.threads_mono (List.suffix_cons _ _)

/-- What begins a program that adds warranted rows keeps the world traced. -/
theorem Traced.of_begin {happening : Happening} {thread : Thread} {program : Storing Value}
    (h : D.Traced history)
    (hworld : D.world (happening :: history) = begin (D.world history) thread program)
    (hprogram : program.Frames
      (Adds (D.Joins (happening :: history)) (D.Invites (happening :: history)))) :
    D.Traced (happening :: history) := by
  refine h.of_tables (congrArg (·.store) hworld) ?_
  intro other
  rw [hworld]
  by_cases hother : other = thread
  · rw [hother, begin_threads_self]
    exact hprogram
  · rw [begin_threads_of_ne _ _ hother]
    exact h.threads_mono (List.suffix_cons _ _) other

/-- A call of a program adds what its statement may, and leaves the rest of it. -/
theorem Traced.of_turn (h : D.Traced history) (turn : Storage.Turn Thread) :
    D.Traced (.turn turn :: history) := by
  have hle : history <:+ .turn turn :: history := List.suffix_cons _ _
  have hadvance := (h.threads turn.thread).advance (Adds.refl _ _) turn.fault (D.world history).store
  refine ⟨?_, ?_, ?_⟩
  · intro row hrow
    rcases hadvance.1.members row hrow with hold | hjoins
    · exact (h.members row hold).mono hle
    · exact (hjoins.warranted h).mono hle
  · intro row hrow text htext
    rcases hadvance.1.invitations row hrow with hold | hinvites
    · exact (h.invitations row hold text htext).mono hle
    · exact (hinvites.warranted htext).mono hle
  · intro thread
    by_cases hthread : thread = turn.thread
    · rw [hthread]
      show (((D.world history).take turn).threads turn.thread).Frames _
      rw [Storage.Shared.take_threads_self]
      exact ((h.threads_mono hle turn.thread).advance (Adds.refl _ _) turn.fault
        (D.world history).store).2
    · show (((D.world history).take turn).threads thread).Frames _
      rw [Storage.Shared.take_threads_of_ne _ hthread]
      exact h.threads_mono hle thread

/-- What Better Auth's endpoints leave is warranted by the invitations they read. -/
theorem Traced.of_authWrote (hpast : ∀ earlier, earlier <:+ history → D.Traced earlier)
    {after : Tables} (hallowed : D.AuthWrites history after) :
    D.Traced (.authWrote after :: history) := by
  have hle : history <:+ .authWrote after :: history := List.suffix_cons _ _
  have h := hpast history (List.suffix_refl _)
  refine ⟨?_, ?_, ?_⟩
  · intro row hrow
    by_cases hold : row ∈ (D.tables history).member.rows
    · exact (h.members row hold).mono hle
    · obtain ⟨invitation, ⟨earlier, hsuffix, hmem⟩, horg, hrole⟩ :=
        (hallowed.members row hrow).resolve_left hold
      have hinvited := (hpast earlier hsuffix).invitations invitation hmem row.role hrole
      rw [horg] at hinvited
      exact .accepted (List.suffix_refl _) hrow hold hsuffix hmem horg hrole hinvited
  · intro row hrow text htext
    obtain ⟨old, hold, horg, hemail, hrole⟩ := hallowed.invitations row hrow
    rw [← horg, ← hemail]
    exact (h.invitations old hold text (hrole.trans htext)).mono hle
  · exact h.threads_mono hle

/-- **One step.** Whatever is allowed to happen next, what is stored stays warranted. -/
theorem traced_step (hrun : D.Run history)
    (hpast : ∀ earlier, earlier <:+ history → D.Traced earlier) {happening : Happening}
    (hallowed : D.Allowed history happening) : D.Traced (happening :: history) := by
  have h := hpast history (List.suffix_refl _)
  cases happening with
  | onBus event =>
      cases event with
      | delivered d => exact h.of_begin rfl (handling_adds hrun hpast hallowed.1.1)
      | signed call e => exact h.of_world rfl
      | settled d execution published => exact h.of_world rfl
      | consumed raw subject => exact h.of_world rfl
      | answered call response => exact h.of_world rfl
  | identified call session => exact h.of_world rfl
  | signedUp n created ambient => exact h.of_begin rfl (signup_adds List.mem_cons_self)
  | turn turn => exact h.of_turn turn
  | authWrote after => exact .of_authWrote hpast hallowed

theorem traced_start : D.Traced [] := by
  refine ⟨?_, ?_, ?_⟩
  · intro row hrow
    cases hrow
  · intro row hrow
    cases hrow
  · intro thread
    trivial

/-- At every moment of a run, what is stored by then is warranted by what came before. -/
theorem traced_past (hrun : D.Run history) :
    ∀ earlier, earlier <:+ history → D.Traced earlier := by
  induction hrun with
  | start =>
      intro earlier hearlier
      rw [List.suffix_nil.mp hearlier]
      exact traced_start
  | next hrun hallowed ih =>
      intro earlier hearlier
      rcases List.suffix_cons_iff.mp hearlier with rfl | hbefore
      · exact traced_step hrun ih hallowed
      · exact ih earlier hbefore

/-- **Where roles come from.**  In every run of an installation, whatever the
adversary delivers, however handlers interleave and wherever they fail, the role
of every member and of every invitation goes back to the founding of the
organisation: the highest role to its founder, any other through an invitation
or a change, of the role that the call named, by a member identified with at
least that role, for a call the gateway signed, their own warranted in turn. -/
theorem roles_warranted (D : Installation) (history : List Happening) (hrun : D.Run history) :
    (∀ row ∈ (D.tables history).member.rows,
      D.Warranted history row.holder row.organizationId (normalizeRole row.role) ∧
      ∃ founder, D.Founds history founder row.organizationId) ∧
    ∀ row ∈ (D.tables history).invitation.rows, ∀ text, row.role = some text →
      D.Warranted history (.invited row.email) row.organizationId (normalizeRole text) ∧
      ∃ founder, D.Founds history founder row.organizationId := by
  have h := traced_past hrun history (List.suffix_refl _)
  constructor
  · intro row hrow
    exact ⟨h.members row hrow, (h.members row hrow).founded⟩
  · intro row hrow text htext
    exact ⟨h.invitations row hrow text htext, (h.invitations row hrow text htext).founded⟩

/-- **For whom handlers act.**  In every run, a message that is admitted was
signed for a caller whom the gateway had identified for that call, by a member
row that was there at that moment: the handler is told that user, that
organisation and that role, and the role is one that the operation is open to.
The one exception is the gateway's own question about a plan. -/
theorem handlers_act_for_members (D : Installation) (history : List Happening)
    (hrun : D.Run history) (later earlier : List Happening) (d : Delivery)
    (hhistory : history = later ++ .onBus (.delivered d) :: earlier) (b : Binding Handling)
    (m : RequestMeta) (payload : Value) (hscreen : D.platform.screen d = .admitted b m payload) :
    (∃ moment identity, D.CalledBy earlier moment identity m ∧
      (∃ row ∈ (D.tables moment).member.rows, row.userId = m.userId ∧
        row.organizationId = m.orgId ∧ normalizeRole row.role = m.role ∧
        D.Warranted moment (.member row.id m.userId) m.orgId m.role) ∧
      ∃ rule, registry.ruleFor b.entry.resource b.entry.operation = some rule ∧
        roleAtLeast m.role rule.minRole = true) ∨
    AskedBySystem D earlier b m := by
  obtain ⟨hearlier, hallowed⟩ := Trace.Run.allowed (hhistory ▸ hrun)
  rcases caller_of_screen hearlier hallowed.1.1 hscreen with
    ⟨moment, identity, hcalled, hrule⟩ | hsystem
  · exact .inl ⟨moment, identity, hcalled,
      hcalled.warranted (traced_past hearlier moment hcalled.before), hrule⟩
  · exact .inr hsystem

/-! ### A founder invites -/

section Founder

def founded : CreatedUser := { id := str "ada", name := none, email := str "ada@acme.io" }

def founderSession : Session := { userId := str "ada", activeOrganizationId := some (str "0") }

def founderIdentity : GatewayIdentity := { userId := str "ada", orgId := str "0", role := .owner }

def founderAnswers : DepsAnswers := { removeAnswers with identity := some founderIdentity }

def inviteOf (handling : ℕ) (raw : Json) : Delivery :=
  { handling, service := .identity, raw, subject := commandSubject (str "member") .create,
    now := 1000 }

/-- A user signs up, is identified as the owner of the workspace they got, and
invites an admin. -/
theorem founder_run : ∃ (D : Installation) (history : List Happening) (e : Envelope) (d : Delivery)
    (b : Binding Handling),
    history = .onBus (.delivered d) ::
      [.onBus (.signed 0 e), .identified 0 (some founderSession), .turn ⟨.signup 0, none⟩,
        .turn ⟨.signup 0, none⟩, .signedUp 0 founded idleAmbient] ∧
    D.Run history ∧ D.platform.screen d = .admitted b e.requestMeta memberInviteBody.toValue ∧
    (D.tables history).member.rows = [SignupHook.firstMember founded idleAmbient] ∧
    b.entry.resource = str "member" ∧ b.entry.operation = .create := by
  choose service hboot using fun name => services_boot roughFormats (fun _ _ _ => .null) name
  let D : Installation :=
    { crypto := .transparent, secret := str "secret", formats := roughFormats,
      flatten := fun _ _ _ => .null, toLowerCase := id, service, booted := hboot,
      ambient := fun _ => idleAmbient }
  let m := metaFor registry memberInviteCall founderIdentity inviteRule founderAnswers
  obtain ⟨signature, hsign⟩ := @Statement.sign_isSome .transparent
    (.envelope .request m memberInviteBody.toValue) _ (canonicalJson_toValue _) (str "secret")
  have hprepare := @prepare_of_passes .transparent (str "secret") registry
    (contractFor roughFormats) memberInviteCall founderAnswers founderIdentity inviteRule
    memberInviteBody.toValue signature rfl rfl (by decide) rfl (by decide) rfl rfl rfl hsign
  let e : Envelope := { requestMeta := m, payload := memberInviteBody.toValue, signature }
  have hcall : HonestCall .transparent (str "secret") registry (contractFor roughFormats)
      memberInviteCall founderAnswers e := by
    refine ⟨hprepare, by decide, ?_, by decide⟩
    intro identity hidentity
    obtain rfl := Option.some.inj hidentity
    decide
  have harrives : Arrives e inviteRule.transport 1000 1000 := by
    refine ⟨show (1000 : ℤ) ≤ 1000 by decide, by decide, ?_⟩
    intro h
    cases h
  have hsafe : ClocksSafe e := ⟨show IsSafe 1000 by decide, show IsSafe 9000 by decide⟩
  have howner : registry.ownerOf memberInviteCall.resource = some (service .identity).service := by
    rw [defineService_service (hboot .identity)]
    rfl
  obtain ⟨raw, p, b, hraw, hp, hscreen, hentry⟩ := @request_admitted .transparent (str "secret")
    registry (contractFor roughFormats) Handling memberInviteCall founderAnswers e inviteRule
    (service .identity) 1000 1000 hcall hsafe rfl (by decide) howner harrives
  have hbody : project e.payload = .json memberInviteBody := rfl
  obtain rfl := Serialized.json.inj (hbody.symm.trans hp)
  obtain rfl := Option.some.inj ((encode_envelope hbody).symm.trans hraw)
  let before : List Happening := [.turn ⟨.signup 0, none⟩, .turn ⟨.signup 0, none⟩,
    .signedUp 0 founded idleAmbient]
  have hidentity : founderAnswers.identity = identify (some founderSession) (D.tables before) := rfl
  have hsigns : D.platform.Signs e := .inl ⟨_, _, hprepare⟩
  have hfirst : D.Run before := by
    refine .next (.next (.next .start ?_) trivial) trivial
    intro _ _ hmem
    cases hmem
  have hsigned : D.Run (.onBus (.signed 0 e) :: .identified 0 (some founderSession) :: before) := by
    refine .next (.next hfirst trivial) ⟨⟨hsigns, ?_⟩, ?_⟩
    · intro e' hmem
      cases hmem
    · intro call e' hevent
      obtain ⟨rfl, rfl⟩ := BusEvent.signed.inj hevent
      exact .inl ⟨_, before, _, _, List.suffix_refl _, hidentity, hprepare⟩
  refine ⟨D, _, e, inviteOf 0 (e.wire memberInviteBody), b, rfl, .next hsigned ⟨⟨?_, ?_⟩, ?_⟩,
    hscreen, rfl, hentry⟩
  · exact Platform.unforged_wire hsigns List.mem_cons_self _
  · intro d' hmem
    rcases List.mem_cons.mp hmem with h | h <;> cases h
  · intro call e' hevent
    cases hevent

/-- The founder's role goes back to their signup, in a run that has the founder's row. -/
theorem founder_warranted : ∃ (D : Installation) (history : List Happening), D.Run history ∧
    (D.tables history).member.rows = [SignupHook.firstMember founded idleAmbient] ∧
    (∀ row ∈ (D.tables history).member.rows,
      D.Warranted history row.holder row.organizationId (normalizeRole row.role) ∧
      ∃ founder, D.Founds history founder row.organizationId) ∧
    ∀ row ∈ (D.tables history).invitation.rows, ∀ text, row.role = some text →
      D.Warranted history (.invited row.email) row.organizationId (normalizeRole text) ∧
      ∃ founder, D.Founds history founder row.organizationId := by
  obtain ⟨D, history, e, d, b, -, hrun, -, hmembers, -⟩ := founder_run
  exact ⟨D, history, hrun, hmembers, roles_warranted D history hrun⟩

/-- The invitation that the founder sends is handled for the founder, as the theorem says.
-/
theorem founder_acts : ∃ (D : Installation) (earlier : List Happening) (e : Envelope) (d : Delivery)
    (b : Binding Handling),
    D.platform.screen d = .admitted b e.requestMeta memberInviteBody.toValue ∧
    ((∃ moment identity, D.CalledBy earlier moment identity e.requestMeta ∧
      (∃ row ∈ (D.tables moment).member.rows, row.userId = e.requestMeta.userId ∧
        row.organizationId = e.requestMeta.orgId ∧ normalizeRole row.role = e.requestMeta.role ∧
        D.Warranted moment (.member row.id e.requestMeta.userId) e.requestMeta.orgId
          e.requestMeta.role) ∧
      ∃ rule, registry.ruleFor b.entry.resource b.entry.operation = some rule ∧
        roleAtLeast e.requestMeta.role rule.minRole = true) ∨
    AskedBySystem D earlier b e.requestMeta) := by
  obtain ⟨D, history, e, d, b, hhistory, hrun, hscreen, -, -⟩ := founder_run
  exact ⟨D, _, e, d, b, hscreen,
    handlers_act_for_members D history hrun [] _ d hhistory b _ _ hscreen⟩

end Founder

end Installation

end Guardrail
