import GuardrailPlatform.RoleProvenance
import GuardrailPlatform.SchemaTexts

/-!
# What the rows hold

The columns of the tables are plain text; what keeps a role a role and a slug a
slug is that every statement that stores one got it from an input its contract
has parsed, or from the registry.  A contract is checked once, where the
handler's program begins.  The statement that stores the value comes turns
later, beside other programs and beside Better Auth's endpoints, and finds a
row that may be another by then: so the form of a row is kept column by column.

One writer has no contract.  The hook of a signup names an organisation after
its founder, and that name and that slug stand until somebody changes them.
-/

namespace Guardrail

open Js
open Storage (Table)
open Storage.Program (Frames)
open IdentityService

/-! ## Forms -/

/-- A role column that is read as it stands. -/
def ReadsAsItself (column : JSString) : Prop := (normalizeRole column).name = column

structure ProjectRow.WellFormed (row : ProjectRow) : Prop where
  name : 2 ≤ row.name.length ∧ row.name.length ≤ 80
  slug : isProjectSlug row.slug = true
  description : ∀ text, row.description = some text → text.length ≤ 500

structure InvitationRow.WellFormed (formats : Formats) (row : InvitationRow) : Prop where
  email : formats.isEmail row.email = true
  role : ∃ column, row.role = some column ∧ ReadsAsItself column

/-- Each column passed a contract, or is the one a hook gave this organisation. -/
structure OrganizationRow.WellFormed (hooked : OrganizationRow → Prop) (row : OrganizationRow) :
    Prop where
  name : (2 ≤ row.name.length ∧ row.name.length ≤ 64) ∨
    ∃ first, hooked first ∧ first.id = row.id ∧ first.name = row.name
  slug : isOrganizationSlug row.slug = true ∨
    ∃ first, hooked first ∧ first.id = row.id ∧ first.slug = row.slug

/-- Every row has its form.  `hooked` are the rows that hooks have inserted. -/
structure WellStored (formats : Formats) (hooked : OrganizationRow → Prop) (tables : Tables) :
    Prop where
  organizations : ∀ row ∈ tables.organization.rows, row.WellFormed hooked
  members : ∀ row ∈ tables.member.rows, ReadsAsItself row.role
  invitations : ∀ row ∈ tables.invitation.rows, row.WellFormed formats
  projects : ∀ row ∈ tables.project.rows, row.WellFormed

/-- A role that the code itself writes is read back as that role. -/
theorem readsAsItself_name (role : OrgRole) : ReadsAsItself role.name := by
  rw [ReadsAsItself, normalizeRole_name]

/-- The form of an organisation's row asks less where more signups are behind it. -/
theorem OrganizationRow.WellFormed.mono {hooked hooked' : OrganizationRow → Prop}
    {row : OrganizationRow} (h : row.WellFormed hooked)
    (hle : ∀ first, hooked first → hooked' first) : row.WellFormed hooked' where
  name := h.name.imp_right fun ⟨first, hfirst, hsame⟩ => ⟨first, hle first hfirst, hsame⟩
  slug := h.slug.imp_right fun ⟨first, hfirst, hsame⟩ => ⟨first, hle first hfirst, hsame⟩

/-- The forms of what is stored ask less where more signups are behind it. -/
theorem WellStored.mono {formats : Formats} {hooked hooked' : OrganizationRow → Prop}
    {tables : Tables} (h : WellStored formats hooked tables)
    (hle : ∀ first, hooked first → hooked' first) : WellStored formats hooked' tables :=
  { h with organizations := fun row hrow => (h.organizations row hrow).mono hle }

/-! ## What a contract lets in -/

section Inputs

variable {formats : Formats} {ctx : ServiceContext} {payload input : Value} {ambient : Ambient}

/-- A bounded text is a text whose length lies between the bounds. -/
theorem isText_textBetween (least most : ℕ) :
    (textBetween least most).IsText fun s => decide (least ≤ s.length ∧ s.length ≤ most) :=
  isText_string _

/-- A role column that a contract lets in holds the name of one role. -/
theorem readsAsItself_of_mem {column : JSString}
    (h : decide (column ∈ orgRoles.map OrgRole.name) = true) : ReadsAsItself column := by
  obtain ⟨role, -, rfl⟩ := List.mem_map.mp (of_decide_eq_true h)
  exact readsAsItself_name role

/-- A project is inserted in the form that its contract has checked. -/
theorem requestedProject_wellFormed
    (hinput : (contractFor formats (str "project") .create).input payload = some input) :
    (requestedProject ctx input ambient).WellFormed where
  name := of_decide_eq_true (check_of_text hinput rfl (isText_textBetween 2 80))
  slug := check_of_text hinput rfl (isText_string _)
  description _ htext :=
    have hchecks := (isText_textBetween 0 500).checks.optional
    (of_decide_eq_true (check_of_text? hinput rfl hchecks htext)).2

/-- What an update of a project sets has the form of what it replaces. -/
theorem projectPatch_wellFormed
    (hinput : (contractFor formats (str "project") .update).input payload = some input)
    (clock : ℕ → Instant) {row : ProjectRow} (hrow : row.WellFormed) :
    ((projectPatch input).apply clock row).WellFormed := by
  constructor
  · show 2 ≤ ((input.text? (str "name")).getD row.name).length ∧
      ((input.text? (str "name")).getD row.name).length ≤ 80
    cases hname : input.text? (str "name") with
    | none => exact hrow.name
    | some name =>
        have hchecks := (isText_textBetween 2 80).checks.optional
        exact of_decide_eq_true (check_of_text? hinput rfl hchecks hname)
  · exact hrow.slug
  · show ∀ text, (input.nullableText? (str "description")).getD row.description = some text →
      text.length ≤ 500
    cases hdescription : input.nullableText? (str "description") with
    | none => exact hrow.description
    | some description =>
        intro text htext
        obtain rfl : description = some text := htext
        have hchecks := (isText_textBetween 0 500).checks.nullable.optional
        exact (of_decide_eq_true (check_of_nullableText? hinput rfl hchecks hdescription)).2

/-- An invitation is inserted in the form that its contract has checked. -/
theorem requestedInvitation_wellFormed
    (hinput : (contractFor formats (str "member") .create).input payload = some input)
    {row : InvitationRow} (hrow : requestedInvitation ctx input ambient = some row) :
    row.WellFormed formats := by
  obtain ⟨expiresAt, -, rfl⟩ := Option.map_eq_some_iff.mp hrow
  exact ⟨check_of_text hinput rfl (isText_string _),
    _, rfl, readsAsItself_of_mem (check_of_text hinput rfl (isText_enum _))⟩

/-- A role that a member is given is one of the schema's three, written as
itself. -/
theorem role_readsAsItself
    (hinput : (contractFor formats (str "member") .update).input payload = some input) :
    ReadsAsItself (input.text (str "role")) :=
  readsAsItself_of_mem (check_of_text hinput rfl (isText_enum _))

/-- An organisation is inserted in the form that its contract has checked. -/
theorem requestedOrganization_wellFormed (hooked : OrganizationRow → Prop)
    (hinput : (contractFor formats (str "organization") .create).input payload = some input) :
    (requestedOrganization input ambient).WellFormed hooked where
  name := .inl (of_decide_eq_true (check_of_text hinput rfl (isText_textBetween 2 64)))
  slug := .inl (check_of_text hinput rfl (isText_string _))

/-- An update sets a name and a slug that the contract has checked, and leaves
the rest. -/
theorem withValues_wellFormed {hooked : OrganizationRow → Prop}
    (hinput : (contractFor formats (str "organization") .update).input payload = some input)
    {row : OrganizationRow} (hrow : row.WellFormed hooked) :
    (withValues (input.text? (str "name")) (input.text? (str "slug")) row).WellFormed hooked := by
  obtain ⟨hparse, -⟩ := parse_refine_eq_some.mp hinput
  constructor
  · cases hname : input.text? (str "name") with
    | none => exact hrow.name
    | some name =>
        have hchecks := (isText_textBetween 2 64).checks.optional
        exact .inl (of_decide_eq_true (check_of_text? hparse rfl hchecks hname))
  · cases hslug : input.text? (str "slug") with
    | none => exact hrow.slug
    | some slug =>
        exact .inl (check_of_text? hparse rfl (isText_string _).checks.optional hslug)

end Inputs

/-! ## What a handler stores -/

/-- Rows that have their form keep it, whatever organisations hooks have named. -/
def KeepsForms (formats : Formats) (before after : Tables) : Prop :=
  ∀ hooked, WellStored formats hooked before → WellStored formats hooked after

/-- Tables that are left as they are keep the forms of their rows. -/
theorem KeepsForms.refl (formats : Formats) (tables : Tables) : KeepsForms formats tables tables :=
  fun _ h => h

section Writes

variable {formats : Formats} {organizationId : JSString}

/-- A deletion brings no row in, so every row left has the form it had. -/
theorem removeMember_keepsForms (memberId : JSString) :
    (removeMember organizationId memberId).Frames (KeepsForms formats) :=
  removeMember_frames fun _ _ h => { h with members := Table.forall_delete h.members }

/-- A deletion of an invitation brings no row in, so every form is kept. -/
theorem revokeInvitation_keepsForms (id : JSString) :
    (revokeInvitation organizationId id).Frames (KeepsForms formats) :=
  revokeInvitation_frames fun _ _ h => { h with invitations := Table.forall_delete h.invitations }

/-- A cascade of deletions brings no row in, so every form is kept. -/
theorem deleteOrganization_keepsForms :
    (deleteOrganization organizationId).Frames (KeepsForms formats) :=
  deleteOrganization_frames fun _ _ h =>
    { organizations := Table.forall_delete h.organizations
      members := Table.forall_delete h.members
      invitations := Table.forall_delete h.invitations
      projects := h.projects }

/-- An insertion keeps the forms where the new row has its own. -/
theorem createInvitation_keepsForms {row : Option InvitationRow}
    (hrow : ∀ invited, row = some invited → invited.WellFormed formats) :
    (createInvitation row).Frames (KeepsForms formats) :=
  createInvitation_frames fun _ invited _ hinvited hinsert _ h =>
    { h with invitations := Table.forall_insert h.invitations hinsert (hrow invited hinvited) }

/-- A change of role keeps the forms where the new role reads as itself. -/
theorem setMemberRole_keepsForms (memberId : JSString) {role : JSString}
    (hrole : ReadsAsItself role) :
    (setMemberRole organizationId memberId role).Frames (KeepsForms formats) :=
  setMemberRole_frames (KeepsForms.refl formats) fun _ _ hupdate _ h =>
    { h with members := Table.forall_update h.members hupdate fun _ _ => hrole }

/-- A founding keeps the forms where both of the rows it inserts have theirs. -/
theorem createOrganization_keepsForms {row : OrganizationRow} {first : MemberRow}
    (hrow : ∀ hooked, row.WellFormed hooked) (hfirst : ReadsAsItself first.role) :
    (createOrganization row first).Frames (KeepsForms formats) :=
  createOrganization_frames fun _ _ _ horganization hmember hooked h =>
    { h with
      organizations := Table.forall_insert h.organizations horganization (hrow hooked)
      members := Table.forall_insert h.members hmember hfirst }

/-- An update keeps the forms where what it sets does, whatever row it meets. -/
theorem updateOrganization_keepsForms {name slug : Option JSString}
    (hset : ∀ hooked (row : OrganizationRow), row.WellFormed hooked →
      (withValues name slug row).WellFormed hooked) :
    (updateOrganization organizationId name slug).Frames (KeepsForms formats) :=
  updateOrganization_frames (KeepsForms.refl formats) fun _ _ hupdate hooked h =>
    { h with organizations := Table.forall_update h.organizations hupdate (hset hooked) }

/-- An insertion of a project keeps the forms where the new row has its own. -/
theorem create_keepsForms {row : ProjectRow} (hrow : row.WellFormed) :
    (ProjectService.create row).Frames (KeepsForms formats) :=
  create_frames fun _ _ hinsert _ h =>
    { h with projects := Table.forall_insert h.projects hinsert hrow }

/-- A patch keeps the forms where what it sets does, whatever row it meets. -/
theorem update_keepsForms (id : JSString) {patch : ProjectService.Patch} {ambient : Ambient}
    (hset : ∀ row : ProjectRow, row.WellFormed → (patch.apply ambient.clock row).WellFormed) :
    (ProjectService.update organizationId id patch ambient).Frames (KeepsForms formats) :=
  update_frames fun _ _ hupdate _ h =>
    { h with projects := Table.forall_update h.projects hupdate hset }

/-- A deletion of a project brings no row in, so every form is kept. -/
theorem remove_keepsForms (id : JSString) :
    (ProjectService.remove organizationId id).Frames (KeepsForms formats) :=
  remove_frames fun _ _ h => { h with projects := Table.forall_delete h.projects }

end Writes

/-- **Every handler** stores what its contract let in, so the rows it leaves have their
forms. -/
theorem execute_keepsForms {formats : Formats} {flatten : ResourceKey → Operation → Value → Value}
    {entry : HandlerEntry Handling} {ctx : ServiceContext} {payload : Value} {ambient : Ambient}
    {name : ServiceName} (hentry : entry ∈ handlersOf formats flatten name) :
    (entry.execute ctx payload ambient).Frames (KeepsForms formats) := by
  have hrefl := KeepsForms.refl formats
  cases name with
  | identity =>
      simp only [handlersOf, identityHandlers, List.mem_cons, List.not_mem_nil, or_false] at hentry
      rcases hentry with rfl | rfl | rfl | rfl | rfl | rfl | rfl | rfl | rfl | rfl | rfl
      · exact handlerFor_frames fun _ _ => memberRead_frames hrefl
      · exact handlerFor_frames fun _ hinput => memberCreate_frames hrefl
          (createInvitation_keepsForms fun _ hrow => requestedInvitation_wellFormed hinput hrow)
      · exact handlerFor_frames fun _ _ => memberDelete_frames (removeMember_keepsForms _)
      · exact handlerFor_frames fun _ _ => invitationRead_frames hrefl
      · exact handlerFor_frames fun _ _ => invitationDelete_frames (revokeInvitation_keepsForms _)
      · exact handlerFor_frames fun _ hinput => memberUpdate_frames hrefl
          (setMemberRole_keepsForms _ (role_readsAsItself hinput))
      · exact handlerFor_frames fun _ _ => organizationRead_frames hrefl
      · exact handlerFor_frames fun _ hinput => organizationCreate_frames hrefl
          (createOrganization_keepsForms
            (fun hooked => requestedOrganization_wellFormed hooked hinput)
            (readsAsItself_name highestRole))
      · exact handlerFor_frames fun _ hinput => organizationUpdate_frames hrefl
          (updateOrganization_keepsForms fun _ _ hrow => withValues_wellFormed hinput hrow)
      · exact handlerFor_frames fun _ _ =>
          organizationDelete_frames deleteOrganization_keepsForms
      · exact handlerFor_frames fun _ _ =>
          membershipDelete_frames hrefl fun _ => removeMember_keepsForms _
  | projects =>
      simp only [handlersOf, projectHandlers, List.mem_cons, List.not_mem_nil, or_false] at hentry
      rcases hentry with rfl | rfl | rfl | rfl
      · exact handlerFor_frames fun _ _ => projectRead_frames hrefl _
      · exact handlerFor_frames fun _ hinput => projectCreate_frames hrefl
          (create_keepsForms (requestedProject_wellFormed hinput))
      · exact handlerFor_frames fun _ hinput => projectUpdate_frames
          (update_keepsForms _ fun _ hrow => projectPatch_wellFormed hinput _ hrow)
      · exact handlerFor_frames fun _ _ => projectDelete_frames (remove_keepsForms _)
  | billing => exact billing_frames hentry
  | audit =>
      simp only [handlersOf, auditHandlers, List.mem_cons, List.not_mem_nil, or_false] at hentry
      obtain rfl := hentry
      exact handlerFor_frames fun _ _ => auditLogRead_frames hrefl

/-! ## Every run -/

namespace Installation

variable (D : Installation)

/-- The organisations that hooks of signups insert. -/
def Hooked (history : List Happening) (row : OrganizationRow) : Prop :=
  ∃ n created ambient, .signedUp n created ambient ∈ history ∧
    row = SignupHook.workspace D.toLowerCase created ambient

/-- Rows that have their form keep it, in this history and in every longer one. -/
def StoresForms (history : List Happening) (before after : Tables) : Prop :=
  ∀ later, history <:+ later → WellStored D.formats (D.Hooked later) before →
    WellStored D.formats (D.Hooked later) after

variable {D} {history later : List Happening}

/-- A signup that was behind a row stays behind it as time goes on. -/
theorem Hooked.mono {row : OrganizationRow} (h : D.Hooked history row) (hle : history <:+ later) :
    D.Hooked later row := by
  obtain ⟨n, created, ambient, hmem, hrow⟩ := h
  exact ⟨n, created, ambient, hle.subset hmem, hrow⟩

/-- What a step has stored stays accounted for while the history grows. -/
theorem StoresForms.mono {before after : Tables} (hle : history <:+ later)
    (h : D.StoresForms history before after) : D.StoresForms later before after :=
  fun last hlast => h last (List.IsSuffix.trans hle hlast)

/-- The signup hook stores an organisation with a name, and makes its founder an owner. -/
theorem signup_storesForms {n : ℕ} {created : CreatedUser} {ambient : Ambient}
    (h : .signedUp n created ambient ∈ history) :
    (D.signup created ambient).Frames (D.StoresForms history) := by
  unfold signup SignupHook.after
  refine .bind (.bind (.perform ?_) fun _ => .perform ?_) fun _ => trivial
  · intro s b t hstatement later hle hstored
    obtain ⟨organization, hinsert, hresult⟩ := Option.map_eq_some_iff.mp hstatement
    obtain ⟨-, rfl⟩ := Prod.mk.inj hresult
    have hhooked : D.Hooked later (SignupHook.workspace D.toLowerCase created ambient) :=
      ⟨n, created, ambient, hle.subset h, rfl⟩
    exact { hstored with
      organizations := Table.forall_insert hstored.organizations hinsert
        ⟨.inr ⟨_, hhooked, rfl, rfl⟩, .inr ⟨_, hhooked, rfl, rfl⟩⟩ }
  · intro s b t hstatement later hle hstored
    obtain ⟨member, hinsert, hresult⟩ := Option.map_eq_some_iff.mp hstatement
    obtain ⟨-, rfl⟩ := Prod.mk.inj hresult
    exact { hstored with
      members := Table.forall_insert hstored.members hinsert (readsAsItself_name highestRole) }

/-- A handler that a delivery starts stores rows in their forms and no others. -/
theorem handling_storesForms (d : Delivery) :
    (D.handling d).Frames (D.StoresForms (.onBus (.delivered d) :: history)) := by
  unfold handling
  cases hscreen : D.platform.screen d with
  | refused route error => trivial
  | admitted b m payload =>
      obtain ⟨r, hpassed⟩ := passed_of_screen hscreen
      have hentry : b.entry ∈ handlersOf D.formats D.flatten d.service :=
        entry_of_defineService (D.booted d.service) b hpassed.bound.1
      exact (execute_keepsForms hentry).mono fun _ _ hkeeps _ _ => hkeeps _

/-- Whatever is under way in a run stores rows in their forms. -/
theorem threads_storeForms (hrun : D.Run history) (thread : Thread) :
    ((D.world history).threads thread).Frames (D.StoresForms history) :=
  @threads_frame D (fun history _ => D.StoresForms history) (fun _ _ _ _ _ h => h)
    (fun hle h => h.mono hle) signup_storesForms (fun _ _ => handling_storesForms _) history hrun
    thread

/-- What Better Auth's endpoints leave has the form of what they found. -/
theorem wellStored_of_authWrites
    (hpast : ∀ earlier, earlier <:+ history →
      WellStored D.formats (D.Hooked earlier) (D.tables earlier))
    {after : Tables} (hwrites : D.AuthWrites history after) :
    WellStored D.formats (D.Hooked history) after := by
  have h := hpast history (List.suffix_refl _)
  constructor
  · rw [hwrites.organizations]
    exact h.organizations
  · intro row hrow
    rcases hwrites.members row hrow with hold | ⟨invitation, hstored, -, hrole⟩
    · exact h.members row hold
    · obtain ⟨earlier, hsuffix, hmem⟩ := hstored
      obtain ⟨column, hcolumn, hreads⟩ := ((hpast earlier hsuffix).invitations _ hmem).role
      obtain rfl := Option.some.inj (hcolumn.symm.trans hrole)
      exact hreads
  · intro row hrow
    obtain ⟨old, hold, -, hemail, hrole⟩ := hwrites.invitations row hrow
    have hform := h.invitations old hold
    exact ⟨hemail ▸ hform.email, hrole ▸ hform.role⟩
  · rw [hwrites.others.1]
    exact h.projects

/-- One happening of a run leaves every stored row in its form. -/
theorem wellStored_step (hrun : D.Run history)
    (hpast : ∀ earlier, earlier <:+ history →
      WellStored D.formats (D.Hooked earlier) (D.tables earlier))
    {happening : Happening} (hallowed : D.Allowed history happening) :
    WellStored D.formats (D.Hooked (happening :: history)) (D.tables (happening :: history)) := by
  have hle : history <:+ happening :: history := List.suffix_cons _ _
  have hstored : WellStored D.formats (D.Hooked (happening :: history)) (D.tables history) :=
    (hpast history (List.suffix_refl _)).mono fun _ hfirst => hfirst.mono hle
  cases happening with
  | onBus event => cases event <;> exact hstored
  | identified call session => exact hstored
  | signedUp n created ambient => exact hstored
  | turn turn =>
      have hadvance := (threads_storeForms hrun turn.thread).advance (fun _ _ _ h => h) turn.fault
        (D.world history).store
      exact hadvance.1 _ hle hstored
  | authWrote after =>
      exact (wellStored_of_authWrites hpast hallowed).mono fun _ hfirst => hfirst.mono hle

/-- At every moment of a run every stored row has its form, by induction on the
run. -/
theorem wellStored_past (hrun : D.Run history) : ∀ earlier, earlier <:+ history →
    WellStored D.formats (D.Hooked earlier) (D.tables earlier) := by
  induction hrun with
  | start =>
      intro earlier hearlier
      rw [List.suffix_nil.mp hearlier]
      constructor <;> (intro row hrow; cases hrow)
  | next hrun hallowed ih =>
      intro earlier hearlier
      rcases List.suffix_cons_iff.mp hearlier with rfl | hbefore
      · exact wellStored_step hrun ih hallowed
      · exact ih earlier hbefore

/-- **What the rows hold.**  In every run of an installation, whatever the
adversary delivers, however programs interleave and wherever they fail, every
row that is stored has its form: a role is read as it stands, and an address, a
name, a slug or a description passed the contract of an operation that stores
it, except that an organisation may still have the name or the slug that the
hook of its founder's signup gave it. -/
theorem rows_wellFormed (D : Installation) (history : List Happening) (hrun : D.Run history) :
    WellStored D.formats (D.Hooked history) (D.tables history) :=
  wellStored_past hrun history (List.suffix_refl _)

/-- The founder's row, which a hook stored, is read as it stands. -/
theorem founder_wellFormed : ∃ (D : Installation) (history : List Happening), D.Run history ∧
    (D.tables history).member.rows = [SignupHook.firstMember founded idleAmbient] ∧
    WellStored D.formats (D.Hooked history) (D.tables history) := by
  obtain ⟨D, history, e, d, b, -, hrun, -, hmembers, -⟩ := founder_run
  exact ⟨D, history, hrun, hmembers, rows_wellFormed D history hrun⟩

end Installation

end Guardrail
