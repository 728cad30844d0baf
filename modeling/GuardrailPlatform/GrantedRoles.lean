import GuardrailPlatform.AccessControl
import GuardrailPlatform.HandlerFrames
import GuardrailPlatform.RequestAuthenticity

/-!
# Granted roles

Three handlers write a role into a row: `member.create` into an invitation,
`member.update` into a member, and `organization.create` into the row of a new
organisation's first owner.  Two processes check the body of a request for a
role its sender may not grant, before any schema has parsed it.

No statement of the identity service writes a role above its caller's, at
whatever store it runs: the checks and the handlers read one role, and the
operation that grants the top role is open to its holders only.
-/

namespace Guardrail

open Js
open Storage (Table)
open IdentityService

/-! ## What may be written -/

/-- The name of a declared role that is not above the actor's. -/
def Grantable (actor : OrgRole) (text : JSString) : Prop :=
  ∃ role : OrgRole, text = role.name ∧ roleRank role ≤ roleRank actor

/-- Every member and invitation row is an old one, or carries a role that may be written. -/
structure GrantsOnly (may : JSString → Prop) (before after : Tables) : Prop where
  members : ∀ row ∈ after.member.rows, row ∈ before.member.rows ∨ may row.role
  invitations : ∀ row ∈ after.invitation.rows, row ∈ before.invitation.rows ∨
    ∃ text, row.role = some text ∧ may text

/-- A store that is left as it is has granted nobody anything. -/
theorem GrantsOnly.refl (may : JSString → Prop) (tables : Tables) : GrantsOnly may tables tables :=
  ⟨fun _ h => .inl h, fun _ h => .inl h⟩

/-- What two steps in a row grant, one of them has granted. -/
theorem GrantsOnly.trans {may : JSString → Prop} {before between after : Tables}
    (h : GrantsOnly may before between) (h' : GrantsOnly may between after) :
    GrantsOnly may before after where
  members row hrow := (h'.members row hrow).elim (h.members row) .inr
  invitations row hrow := (h'.invitations row hrow).elim (h.invitations row) .inr

/-- A statement that leaves both the members and the invitations as they are grants nothing.
-/
theorem GrantsOnly.of_same {may : JSString → Prop} {before after : Tables}
    (hmember : after.member = before.member) (hinvitation : after.invitation = before.invitation) :
    GrantsOnly may before after where
  members _ hrow := .inl (hmember ▸ hrow)
  invitations _ hrow := .inl (hinvitation ▸ hrow)

/-- Every member and invitation row is an old one or carries a role the actor may grant. -/
abbrev GrantsAtMost (actor : OrgRole) : Tables → Tables → Prop := GrantsOnly (Grantable actor)

/-! ## One role, read three times -/

/-- What passes an escalation check names a role the actor may grant, or none. -/
theorem grantable_of_refusedRole {payload : Value} {actor : OrgRole} {name : JSString}
    (hrefused : refusedRole payload actor = none) (hnamed : namedRole payload = some name) :
    Grantable actor name := by
  rw [refusedRole, hnamed] at hrefused
  split at hrefused
  · rename_i hnone
    cases hnone
  · rename_i requested hrequested
    obtain rfl := Option.some.inj hrequested
    split at hrefused
    · rename_i hany
      obtain ⟨role, hrole, hname⟩ := List.any_eq_true.mp hany
      rw [assignableRoles, List.mem_filter] at hrole
      exact ⟨role, (beq_iff_eq.mp hname).symm, of_decide_eq_true hrole.2⟩
    · cases hrefused

/-- The contract of the operation has a role field. -/
def TakesRole (formats : Formats) (resource : ResourceKey) (operation : Operation) : Prop :=
  ∃ schemas, contractFor? formats resource operation = some schemas ∧
    schemas.input.hasField (str "role") = true

/-- Where a contract takes a role, a parsed input has it, and the body named it. -/
theorem role_of_takesRole {formats : Formats} {resource : ResourceKey} {operation : Operation}
    (h : TakesRole formats resource operation) {body input : Value}
    (hinput : (contractFor formats resource operation).input body = some input) :
    ∃ name, namedRole body = some name ∧ namedRole input = some name ∧
      input.text (str "role") = name := by
  obtain ⟨schemas, hschemas, hfield⟩ := h
  rw [contractFor, hschemas] at hinput
  obtain ⟨out, name, rfl, hname⟩ := exists_string_of_hasField schemas.namesRole hfield hinput
  have hmember : (Value.object out).member? (str "role") = some (.string name) := hname
  obtain ⟨name', hsame, hbody⟩ := schemas.contract.keepsRole body _ hinput _ hmember
  obtain rfl := Value.string.inj hsame
  refine ⟨name, hbody, ?_, ?_⟩
  · rw [namedRole, hmember]
  · rw [Value.text, Value.text?, hmember]
    rfl

/-! ## Every write of the service -/

section Writes

variable {may : JSString → Prop}

theorem removeMember_grants (organizationId memberId : JSString) :
    (removeMember organizationId memberId).Frames (GrantsOnly may) :=
  removeMember_frames fun _ =>
    ⟨fun _ hrow => .inl (List.mem_filter.mp hrow).1, fun _ hrow => .inl hrow⟩

theorem revokeInvitation_grants (organizationId id : JSString) :
    (revokeInvitation organizationId id).Frames (GrantsOnly may) :=
  revokeInvitation_frames fun _ =>
    ⟨fun _ hrow => .inl hrow, fun _ hrow => .inl (List.mem_filter.mp hrow).1⟩

/-- Storing an invitation grants the role it was asked for, and no other row changes. -/
theorem createInvitation_grants {organizationId email role inviterId : JSString}
    {ambient : Ambient} (hrole : may role) :
    (createInvitation (newInvitation organizationId email role inviterId ambient)).Frames
      (GrantsOnly may) := by
  refine createInvitation_frames fun tables invited invitation hnew hinsert => ?_
  have hrequested : invited.role = some role := by
    obtain ⟨expiresAt, -, rfl⟩ := Option.map_eq_some_iff.mp hnew
    rfl
  refine ⟨fun _ hold => .inl hold, fun row hrow => ?_⟩
  rw [(Table.insert_eq_some.mp hinsert).2] at hrow
  rcases List.mem_cons.mp hrow with rfl | hold
  · exact .inr ⟨role, hrequested, hrole⟩
  · exact .inl hold

/-- A member row the update touches carries the role it was given. -/
theorem setMemberRole_grants {organizationId memberId role : JSString}
    (hrole : may role) :
    (setMemberRole organizationId memberId role).Frames (GrantsOnly may) := by
  refine setMemberRole_frames (GrantsOnly.refl may) fun tables member hupdate => ?_
  refine ⟨fun changed hchanged => ?_, fun _ hrow => .inl hrow⟩
  rw [(Table.update_eq_some.mp hupdate).2] at hchanged
  obtain ⟨old, hold, rfl⟩ := List.mem_map.mp hchanged
  by_cases hnamed : isMember organizationId memberId old = true
  · right
    rw [Table.setWhere, if_pos hnamed]
    exact hrole
  · left
    rw [Table.setWhere, if_neg hnamed]
    exact hold

/-- The transaction that founds an organisation grants one role, that of the first member.
-/
theorem createOrganization_grants {row : OrganizationRow} {first : MemberRow}
    (hrole : may first.role) :
    (createOrganization row first).Frames (GrantsOnly may) := by
  refine createOrganization_frames fun tables organization member _ hinsert => ?_
  refine ⟨fun added hadded => ?_, fun _ hrow => .inl hrow⟩
  rw [(Table.insert_eq_some.mp hinsert).2] at hadded
  rcases List.mem_cons.mp hadded with rfl | hold
  · exact .inr hrole
  · exact .inl hold

theorem updateOrganization_grants (organizationId : JSString) (name slug : Option JSString) :
    (updateOrganization organizationId name slug).Frames (GrantsOnly may) :=
  updateOrganization_frames (GrantsOnly.refl may) fun _ _ _ => .of_same rfl rfl

theorem deleteOrganization_grants (organizationId : JSString) :
    (deleteOrganization organizationId).Frames (GrantsOnly may) :=
  deleteOrganization_frames fun _ => ⟨fun _ hrow => .inl (List.mem_filter.mp hrow).1,
    fun _ hrow => .inl (List.mem_filter.mp hrow).1⟩

end Writes

/-! ## From dispatch to the tables -/

section Granting

variable {formats : Formats} {flatten : ResourceKey → Operation → Value → Value}

/-- Inviting a member and changing a member's role are operations whose body takes a role.
-/
theorem takesRole_member {operation : Operation} (h : operation = .create ∨ operation = .update) :
    TakesRole formats (str "member") operation := by
  rcases h with rfl | rfl
  · exact ⟨_, rfl, rfl⟩
  · exact ⟨_, rfl, rfl⟩

/-- Every handler writes only roles it may, if the one a parsed body names is such, and
the top role where it founds an organisation. -/
theorem execute_grantsOnly {may : JSString → Prop} {entry : HandlerEntry Handling}
    {ctx : ServiceContext} {payload : Value} (hentry : entry ∈ identityHandlers formats flatten)
    (hnamed : ∀ {operation input}, operation = .create ∨ operation = .update →
      entry.resource = str "member" → entry.operation = operation →
      (contractFor formats (str "member") operation).input payload = some input →
      may (input.text (str "role")))
    (hfounded : entry.resource = str "organization" → entry.operation = .create →
      may highestRole.name) (ambient : Ambient) :
    (entry.execute ctx payload ambient).Frames (GrantsOnly may) := by
  simp only [identityHandlers, List.mem_cons, List.not_mem_nil, or_false] at hentry
  have hrefl := GrantsOnly.refl may
  rcases hentry with rfl | rfl | rfl | rfl | rfl | rfl | rfl | rfl | rfl | rfl | rfl
  · exact handlerFor_frames fun _ _ => memberRead_frames hrefl
  · exact handlerFor_frames fun _ hinput =>
      memberCreate_frames hrefl (createInvitation_grants (hnamed (.inl rfl) rfl rfl hinput))
  · exact handlerFor_frames fun _ _ => memberDelete_frames (removeMember_grants _ _)
  · exact handlerFor_frames fun _ _ => invitationRead_frames hrefl
  · exact handlerFor_frames fun _ _ => invitationDelete_frames (revokeInvitation_grants _ _)
  · exact handlerFor_frames fun _ hinput =>
      memberUpdate_frames hrefl (setMemberRole_grants (hnamed (.inr rfl) rfl rfl hinput))
  · exact handlerFor_frames fun _ _ => organizationRead_frames hrefl
  · exact handlerFor_frames fun _ _ => organizationCreate_frames hrefl
      (createOrganization_grants (hfounded rfl rfl))
  · exact handlerFor_frames fun _ _ =>
      organizationUpdate_frames hrefl (updateOrganization_grants _ _ _)
  · exact handlerFor_frames fun _ _ => organizationDelete_frames (deleteOrganization_grants _)
  · exact handlerFor_frames fun _ _ =>
      membershipDelete_frames hrefl fun _ => removeMember_grants _ _

/-- **Every handler.**  What passed the service's checks grants no role above the actor's. -/
theorem execute_frames {actor : OrgRole} {entry : HandlerEntry Handling} {ctx : ServiceContext}
    {payload : Value} (hentry : entry ∈ identityHandlers formats flatten)
    (hpermitted : can (registry.permissionsForRole actor) entry.resource entry.operation = true)
    (hunescalated : refusedRole payload actor = none) (ambient : Ambient) :
    (entry.execute ctx payload ambient).Frames (GrantsAtMost actor) := by
  refine execute_grantsOnly hentry ?_ ?_ ambient
  · intro operation input hoperation _ _ hinput
    obtain ⟨name, hnamed, -, htext⟩ := role_of_takesRole (takesRole_member hoperation) hinput
    rw [htext]
    exact grantable_of_refusedRole hunescalated hnamed
  · -- the operation is open to the top role only
    intro hresource hoperation
    rw [hresource, hoperation] at hpermitted
    have hrule : registry.ruleFor (str "organization") .create =
        some (mutationRule .owner true 5000) := rfl
    have hhighest : roleAtLeast actor highestRole = true :=
      (can_permissionsForRole hrule).mp hpermitted
    exact ⟨highestRole, rfl, of_decide_eq_true hhighest⟩

/-- Founding an organisation takes no role from the body, since its contract names none. -/
theorem not_takesRole_founding : ¬ TakesRole formats (str "organization") .create := by
  rintro ⟨schemas, hschemas, hfield⟩
  obtain rfl := Option.some.inj hschemas
  cases hfield

/-- The gateway's check, the service's check and the handler concern one role, and every
row the handler writes carries it. -/
def OneRole (contract : Contract) (body payload : Value) (handling : Handling) : Prop :=
  ∃ name, namedRole body = some name ∧ namedRole payload = some name ∧
    (∀ input, contract.input payload = some input → input.text (str "role") = name) ∧
    ∀ ambient, (handling ambient).Frames (GrantsOnly (· = name))

/-- The role a contract demands is still there after the gateway's parse and the codec,
and is what the handler of the operation writes. -/
theorem oneRole_of_input {resource : ResourceKey} {operation : Operation} {body input : Value}
    {p : Json} (htakes : TakesRole formats resource operation)
    (hinput : (contractFor formats resource operation).input body = some input)
    (hp : project input = .json p) {entry : HandlerEntry Handling}
    (hentry : entry ∈ identityHandlers formats flatten)
    (hof : entry.resource = resource ∧ entry.operation = operation) (ctx : ServiceContext) :
    OneRole (contractFor formats resource operation) body p.toValue
      (entry.execute ctx p.toValue) := by
  obtain ⟨name, hbody, hparsed, -⟩ := role_of_takesRole htakes hinput
  have hstring : ∀ role, input.member? (str "role") = some role →
      ∃ name, role = .string name := by
    intro role hrole
    obtain ⟨name, hname, -⟩ :=
      (contractFor formats resource operation).keepsRole body input hinput role hrole
    exact ⟨name, hname⟩
  have hpayload : namedRole p.toValue = some name := (namedRole_of_project hp hstring).trans hparsed
  have hreads : ∀ received, (contractFor formats resource operation).input p.toValue =
      some received → received.text (str "role") = name := by
    intro received hreceived
    obtain ⟨name', hnamed, -, htext⟩ := role_of_takesRole htakes hreceived
    obtain rfl := Option.some.inj (hpayload.symm.trans hnamed)
    exact htext
  obtain ⟨rfl, rfl⟩ := hof
  refine ⟨name, hbody, hpayload, hreads, execute_grantsOnly hentry ?_ ?_⟩
  · intro operation received _ hresource hoperation hreceived
    rw [hresource, hoperation] at hreads
    exact hreads received hreceived
  · intro hresource hoperation
    rw [hresource, hoperation] at htakes
    exact (not_takesRole_founding htakes).elim

/-- **No privilege escalation through grants.**  From a dispatched call to the
tables, whatever body it carries, no statement of the identity service writes a
role above the one the gateway resolved; nor does a whole run, wherever it fails.
Where the operation takes a role, it is one role that both checks read and the
handler writes. -/
theorem grants_bounded {crypto : Crypto} {secret : JSString} {rt : ServiceRuntime registry Handling}
    (hboot : defineService registry .identity (identityHandlers formats flatten) = .ok rt)
    {args : DispatchArgs} {deps : DepsAnswers} {e : Envelope}
    (hprepare : prepare crypto secret registry (contractFor formats) args deps = .ok e)
    {raw : Json} (hraw : encode e.toValue = some raw) {subject : JSString} {now : ℤ}
    {b : Binding Handling} {m : RequestMeta} {payload : Value}
    (hscreen : screen crypto secret rt raw subject now = .admitted b m payload) :
    ∃ identity, deps.identity = some identity ∧ m.role = identity.role ∧
      (∀ ambient, (b.entry.execute (contextOf m) payload ambient).Frames
        (GrantsAtMost identity.role)) ∧
      (∀ ambient faults tables, GrantsAtMost identity.role tables
        ((b.entry.execute (contextOf m) payload ambient).run faults tables).2) ∧
      (TakesRole formats args.resource args.operation →
        OneRole (contractFor formats args.resource args.operation) args.input payload
          (b.entry.execute (contextOf m) payload)) := by
  obtain ⟨identity, rule, hp⟩ := prepared_of_prepare hprepare
  obtain ⟨r, hpassed⟩ := passed_of_screen hscreen
  have hsigned : (Statement.envelope .request e.requestMeta e.payload).sign crypto secret =
      some e.signature := hp.signed
  obtain ⟨p, hproject⟩ := project_of_sign hsigned
  obtain rfl := Option.some.inj ((encode_envelope hproject).symm.trans hraw)
  obtain ⟨hm, hpayload⟩ := carried_of_screen hscreen
  have hrole : m.role = identity.role := by
    rw [hm, hp.requestMeta]
    rfl
  have hpermitted : can (registry.permissionsForRole identity.role) b.entry.resource
      b.entry.operation = true := by
    rw [can_iff, hpassed.entry.1, hpassed.entry.2]
    have hheld := hpassed.permitted
    rw [hm, hp.requestMeta] at hheld ⊢
    exact hheld
  have hunescalated : refusedRole payload identity.role = none := hrole ▸ hpassed.unescalated
  have hframes : ∀ ambient,
      (b.entry.execute (contextOf m) payload ambient).Frames (GrantsAtMost identity.role) :=
    execute_frames (entry_of_defineService hboot b hpassed.bound.1) hpermitted hunescalated
  refine ⟨identity, hp.identified, hrole, hframes, ?_, ?_⟩
  · intro ambient faults tables
    exact Storage.Program.run_frames (GrantsOnly.refl _)
      (fun _ _ _ h h' => h.trans h') (hframes ambient) faults tables
  · intro htakes
    have hof : b.entry.resource = args.resource ∧ b.entry.operation = args.operation := by
      rw [hpassed.entry.1, hpassed.entry.2, hm, hp.requestMeta]
      exact ⟨rfl, rfl⟩
    rw [hpayload]
    exact oneRole_of_input htakes hp.payload hproject
      (entry_of_defineService hboot b hpassed.bound.1) hof _

/-! ## An invitation -/

/-- An admin invites an admin. -/
def memberInviteCall : DispatchArgs :=
  { requestId := str "request-2", resource := str "member", operation := .create,
    input := .object [(str "role", .string (str "admin")), (str "email", .string (str "bo@acme.io"))] }

def inviteRule : OperationRule := { mutationRule .admin true 8000 with transport := .command }

/-- The body as the gateway's schema orders it. -/
def memberInviteBody : Json :=
  .object [(str "email", .string (str "bo@acme.io")), (str "role", .string (str "admin"))]

/-- The service admits an admin's invitation, and the row it writes has the role
that was asked for. -/
theorem invitation_bounded : ∃ (rt : ServiceRuntime registry Handling) (e : Envelope) (raw : Json)
    (b : Binding Handling),
    defineService registry .identity (identityHandlers roughFormats fun _ _ _ => .null) = .ok rt ∧
    screen .transparent (str "secret") rt raw (commandSubject (str "member") .create) 1000 =
      .admitted b e.requestMeta memberInviteBody.toValue ∧
    (∀ ambient faults tables, GrantsAtMost .admin tables
      ((b.entry.execute (contextOf e.requestMeta) memberInviteBody.toValue ambient).run faults tables).2) ∧
    OneRole (contractFor roughFormats (str "member") .create) memberInviteCall.input
      memberInviteBody.toValue (b.entry.execute (contextOf e.requestMeta) memberInviteBody.toValue) := by
  obtain ⟨rt, hboot⟩ := services_boot roughFormats (fun _ _ _ => .null) .identity
  let m := metaFor registry memberInviteCall remover inviteRule removeAnswers
  obtain ⟨signature, hsign⟩ := @Statement.sign_isSome .transparent
    (.envelope .request m memberInviteBody.toValue) _ (canonicalJson_toValue _) (str "secret")
  have hprepare := @prepare_of_passes .transparent (str "secret") registry
    (contractFor roughFormats) memberInviteCall removeAnswers remover inviteRule memberInviteBody.toValue
    signature rfl rfl (by decide) rfl (by decide) rfl rfl rfl hsign
  let e : Envelope := { requestMeta := m, payload := memberInviteBody.toValue, signature }
  have hcall : HonestCall .transparent (str "secret") registry (contractFor roughFormats)
      memberInviteCall removeAnswers e := by
    refine ⟨hprepare, by decide, ?_, by decide⟩
    intro identity hidentity
    obtain rfl := Option.some.inj hidentity
    decide
  have harrives : Arrives e inviteRule.transport 1000 1000 :=
    ⟨show (1000 : ℤ) ≤ 1000 by decide, by decide, fun h => nomatch h⟩
  have hsafe : ClocksSafe e := ⟨show IsSafe 1000 by decide, show IsSafe 9000 by decide⟩
  obtain ⟨raw, p, b, hraw, hp, hscreen, -⟩ := @request_admitted .transparent (str "secret") registry
    (contractFor roughFormats) Handling memberInviteCall removeAnswers e inviteRule rt 1000 1000 hcall
    hsafe rfl (by decide) (by rw [defineService_service hboot]; rfl) harrives
  have hbody : project e.payload = .json memberInviteBody := rfl
  obtain rfl := Serialized.json.inj (hbody.symm.trans hp)
  obtain ⟨identity, hidentity, -, -, hrun, hsame⟩ := grants_bounded hboot hprepare hraw hscreen
  obtain rfl := Option.some.inj hidentity
  exact ⟨rt, e, raw, b, hboot, hscreen, hrun, hsame (takesRole_member (.inl rfl))⟩

end Granting

end Guardrail
