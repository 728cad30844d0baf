import GuardrailPlatform.JetStream
import GuardrailPlatform.LastOwner
import GuardrailPlatform.RequestAuthenticity

/-!
# Refusals and the tables

`handle` answers `ok: false` for whatever fails after a handler's write as it
does for what fails before it.  A refusal therefore leaves the tables alone
exactly where the write is the last thing that can fail.
-/

namespace Guardrail

open Js
open Storage (Faults Outcome Table)

/-! ## `handle` and the tables -/

structure Handled where
  settled : Settled
  tables : Tables

/-- `handle` in a store, with the failures of its calls and of its publish given. -/
def handleIn (crypto : Crypto) (secret : JSString) (rt : ServiceRuntime registry Handling)
    (raw : Json) (subject : JSString) (now : ℤ) (ambient : Ambient) (faults : Faults)
    (outcome : PublishOutcome) (tables : Tables) : Handled :=
  match screen crypto secret rt raw subject now with
  | .refused route error => { settled := { event := none, reply := reject crypto secret route error },
                              tables }
  | .admitted b m payload =>
    let execution := (b.entry.execute (contextOf m) payload ambient).run faults tables
    { settled := settle crypto secret b.route m (.ofOutcome execution.1) outcome.returned,
      tables := execution.2 }

/-- What is settled here is what `handle` settles when the store's answers are its
environment. -/
theorem handleIn_settled (crypto : Crypto) (secret : JSString)
    (rt : ServiceRuntime registry Handling) (raw : Json) (subject : JSString) (now : ℤ)
    (ambient : Ambient) (faults : Faults) (outcome : PublishOutcome) (tables : Tables) :
    (handleIn crypto secret rt raw subject now ambient faults outcome tables).settled =
      handle crypto secret rt raw subject now
        (fun entry ctx payload =>
          .ofOutcome ((entry.execute ctx payload ambient).run faults tables).1)
        outcome.returned := by
  rw [handleIn, handle]
  cases screen crypto secret rt raw subject now <;> rfl

/-- Was the caller told `ok: true`? -/
def Settled.Succeeded (settled : Settled) : Prop :=
  ∃ reply, settled.reply = some reply ∧ reply.isOk = true

/-- Did the operation's event reach the stream? -/
def Settled.Announced (settled : Settled) (outcome : PublishOutcome) : Prop :=
  settled.event.isSome = true ∧ outcome.reached = true

/-- Is the message's operation one the registry audits? -/
def Audited (raw : Json) : Prop :=
  ∃ e r, parseEnvelope registry raw = some e ∧
    registry.findRoute e.requestMeta.resource e.requestMeta.operation = some r ∧ r.audit = true

/-- A refusal, or a throw, left the tables as they were, and a change that is
to be audited was announced. -/
structure Handled.Coherent (handled : Handled) (tables : Tables) (raw : Json)
    (outcome : PublishOutcome) : Prop where
  refused : ¬ handled.settled.Succeeded → handled.tables = tables
  announced : handled.tables ≠ tables → Audited raw → handled.settled.Announced outcome

/-- Where a mutation writes, nothing after the write fails. -/
def Mutation.Sound (mutation : Mutation) (event : Option JSString) (faults : Faults)
    (outcome : PublishOutcome) : Prop :=
  mutation.writes → (∀ i < mutation.checks, faults i = none) → faults mutation.checks ≠ some .lost →
    (∀ i ≤ mutation.checks + mutation.reads, faults i = none) ∧ mutation.answers ∧
      (event.isSome = true → outcome.returned = true)

/-! ## What a handler answers after its write -/

section Answers

variable {formats : Formats} {ctx : ServiceContext} {input : Value} {ambient : Ambient}
  {tables : Tables}

/-- Data that can be signed. -/
def Signable (outcome : Outcome ServiceError Value) : Prop :=
  ∃ data text, outcome = .returned data ∧ canonicalJson data = some text

/-- A deletion answers with an id, which passes its output contract and can be
signed. -/
theorem signable_id {resource : ResourceKey}
    (hresource : resource = str "member" ∨ resource = str "invitation" ∨ resource = str "project" ∨
      resource = str "organization" ∨ resource = str "membership") (id : JSString) :
    Signable (outputOutcome (contractFor formats resource .delete) (idValue id)) := by
  rcases hresource with rfl | rfl | rfl | rfl | rfl <;> exact ⟨_, _, rfl, rfl⟩

/-- An accepted command answers with its request id, which can be signed. -/
theorem signable_accepted (requestId : JSString) :
    Signable (outputOutcome (contractFor formats (str "member") .create)
      (acceptedValue requestId)) := ⟨_, _, rfl, rfl⟩

/-- A stored project passes the output contract, so the answer to its write can
be signed. -/
theorem signable_project {operation : Operation} (hoperation : operation = .create ∨
    operation = .update) (row : ProjectRow) :
    Signable (outputOutcome (contractFor formats (str "project") operation) row.toValue) := by
  obtain ⟨id, organizationId, name, slug, description, createdById, archivedAt, createdAt,
    updatedAt⟩ := row
  rcases hoperation with rfl | rfl <;> cases description <;> cases archivedAt <;>
    exact ⟨_, _, rfl, rfl⟩

/-- A member passes the output contract, so the answer to a change of role can
be signed. -/
theorem signable_person (person : Person) :
    Signable (outputOutcome (contractFor formats (str "member") .update) person.toValue) := by
  rw [Person.toValue]
  generalize normalizeRole person.role = role
  cases role <;> exact ⟨_, _, rfl, rfl⟩

/-- An organisation passes its output schema while the number of its seats is a safe
integer. -/
theorem organizationDto_parse {row : OrganizationRow} {memberCount : ℕ}
    (h : (memberCount : ℤ) ≤ maxSafeInteger) :
    (organizationDto formats).parse (row.toValue memberCount) =
      some (.object [(str "id", .string row.id), (str "name", .string row.name),
        (str "slug", .string row.slug), (str "logo", nullableValue .string row.logo),
        (str "createdAt", row.createdAt.toValue),
        (str "memberCount", .number (.finite (.ofInt memberCount)))]) := by
  have hcount : (intBetween (-maxSafeInteger) maxSafeInteger).parse
      (.number (.finite (.ofInt memberCount))) = some (.number (.finite (.ofInt memberCount))) := by
    rw [intBetween_parse, if_pos ⟨by rw [maxSafeInteger]; omega, h⟩]
  obtain ⟨id, name, slug, logo, metadata, createdAt⟩ := row
  rw [organizationDto, OrganizationRow.toValue, Schema.parse, Value.ownMembers?, Option.bind_some,
    parseFields_of_forall, Option.map_some]
  refine .cons ⟨rfl, rfl, rfl⟩ (.cons ⟨rfl, rfl, rfl⟩ (.cons ⟨rfl, rfl, rfl⟩ (.cons ⟨rfl, ?_, ?_⟩
    (.cons ⟨rfl, rfl, rfl⟩ (.cons ⟨rfl, rfl, hcount⟩ .nil)))))
  · cases logo <;> rfl
  · cases logo <;> rfl

/-- An organisation with too many members to count safely fails its own output
contract. -/
theorem organizationDto_refuses {row : OrganizationRow} {memberCount : ℕ}
    (h : maxSafeInteger < (memberCount : ℤ)) :
    (organizationDto formats).parse (row.toValue memberCount) = none := by
  rw [organizationDto, OrganizationRow.toValue, Schema.parse, Value.ownMembers?, Option.bind_some,
    @parseFields_eq_none _ _ (str "memberCount") (intBetween (-maxSafeInteger) maxSafeInteger)
      (by simp), Option.map_none]
  show (intBetween _ _).parse (.number (.finite (.ofInt memberCount))) = none
  rw [intBetween_parse, if_neg]
  intro hbetween
  exact absurd hbetween.2 (not_le.mpr h)

/-- An organisation whose members can be counted safely passes the output
contract. -/
theorem signable_organization {operation : Operation} (hoperation : operation = .create ∨
    operation = .update) {row : OrganizationRow} {memberCount : ℕ}
    (h : (memberCount : ℤ) ≤ maxSafeInteger) :
    Signable (outputOutcome (contractFor formats (str "organization") operation)
      (row.toValue memberCount)) := by
  have houtput : (contractFor formats (str "organization") operation).output =
      (organizationDto formats).parse := by
    rcases hoperation with rfl | rfl <;> rfl
  rw [outputOutcome, houtput, organizationDto_parse h]
  obtain ⟨id, name, slug, logo, metadata, createdAt⟩ := row
  cases logo <;> exact ⟨_, _, rfl, rfl⟩

/-- What a handler can sign after its write is what its mutation says it can. -/
def Mutation.Faithful (mutation : Mutation) (contract : Contract) : Prop :=
  mutation.writes →
    (mutation.answers → Signable (mutation.answer.bind (outputOutcome contract))) ∧
    (¬ mutation.answers → ∀ data, mutation.answer.bind (outputOutcome contract) ≠ .returned data)

/-- A mutation that writes nothing leaves nothing behind when its answer is lost. -/
theorem faithful_idle (contract : Contract) : (Mutation.idle tables).Faithful contract :=
  fun h => h.elim

/-- A mutation that always answers, and whose answer after a write can be signed, is
faithful. -/
theorem faithful_of_signable {mutation : Mutation} {contract : Contract} (hanswers : mutation.answers)
    (h : mutation.writes → Signable (mutation.answer.bind (outputOutcome contract))) :
    mutation.Faithful contract :=
  fun hwrites => ⟨fun _ => h hwrites, fun hnot => (hnot hanswers).elim⟩

/-- A removal that finds the row it looks for answers with the row's id. -/
theorem removal_of_mem {ρ : Type} {clash : ρ → ρ → Prop} {t : Table ρ clash} {p : ρ → Bool}
    (id : ρ → JSString) (error : ServiceError) (h : ∃ row ∈ t.rows, p row = true) :
    ∃ removedId, removal (((t.select p).head?).map id) error = .returned (idValue removedId) := by
  obtain ⟨row, hrow, hp⟩ := h
  have hmem : row ∈ t.select p := List.mem_filter.mpr ⟨hrow, hp⟩
  cases hselect : t.select p with
  | nil =>
      rw [hselect] at hmem
      cases hmem
  | cons first rest => exact ⟨id first, rfl⟩

/-- A guard before a mutation reads only, so the answer to its write is signable
as before. -/
theorem faithful_guarded {mutation : Mutation} {contract : Contract} (h : mutation.Faithful contract)
    (demoted : Bool) (organizationId : JSString) :
    (mutation.guarded demoted tables organizationId).Faithful contract := by
  intro hwrites
  obtain ⟨-, checks, hmutation⟩ := Mutation.guarded_writes hwrites
  rw [hmutation] at hwrites ⊢
  exact h hwrites

/-- A check before a mutation reads only, so the answer to its write is signable
as before. -/
theorem faithful_checked {mutation : Mutation} {contract : Contract}
    (h : mutation.Faithful contract) : mutation.checked.Faithful contract := h

/-- Removing a member writes only where it answers with the id it removed. -/
theorem faithful_memberRemoval {resource : ResourceKey}
    (hresource : resource = str "member" ∨ resource = str "membership")
    (organizationId memberId : JSString) (error : ServiceError) :
    (memberRemoval tables organizationId memberId error).Faithful
      (contractFor formats resource .delete) := by
  refine faithful_of_signable trivial fun hwrites => ?_
  obtain ⟨id, hremoval⟩ := removal_of_mem MemberRow.id error hwrites
  have hanswer : (memberRemoval tables organizationId memberId error).answer =
      .returned (idValue id) := hremoval
  rw [hanswer, Outcome.bind_returned]
  rcases hresource with hmember | hmembership
  · exact signable_id (.inl hmember) id
  · exact signable_id (.inr (.inr (.inr (.inr hmembership)))) id

/-- Leaving an organisation writes only where it answers with the row it
deleted. -/
theorem faithful_membershipDeletion :
    (membershipDeletion ctx tables).Faithful (contractFor formats (str "membership") .delete) := by
  rw [membershipDeletion]
  cases ownMembership ctx tables with
  | none => exact faithful_checked (faithful_idle _)
  | some own => exact faithful_checked (faithful_guarded (faithful_memberRemoval (.inr rfl) _ _ _) _ _)

/-- Revoking an invitation writes only where the handler comes to answer with its id. -/
theorem faithful_invitationDeletion :
    (invitationDeletion ctx input tables).Faithful
      (contractFor formats (str "invitation") .delete) := by
  refine faithful_of_signable trivial fun hwrites => ?_
  obtain ⟨id, hremoval⟩ := removal_of_mem InvitationRow.id
    (serviceError .notFound (str "Invitation not found.")) hwrites
  have hanswer : (invitationDeletion ctx input tables).answer = .returned (idValue id) := hremoval
  rw [hanswer, Outcome.bind_returned]
  exact signable_id (.inr (.inl rfl)) id

/-- Deleting a project writes only where the handler comes to answer with its id. -/
theorem faithful_projectDeletion :
    (projectDeletion ctx input tables).Faithful (contractFor formats (str "project") .delete) := by
  refine faithful_of_signable trivial fun hwrites => ?_
  obtain ⟨id, hremoval⟩ := removal_of_mem ProjectRow.id
    (serviceError .notFound (str "Project not found.")) hwrites
  have hanswer : (projectDeletion ctx input tables).answer = .returned (idValue id) := hremoval
  rw [hanswer, Outcome.bind_returned]
  exact signable_id (.inr (.inr (.inl rfl))) id

/-- Deleting an organisation writes only where the handler comes to answer with its id. -/
theorem faithful_organizationDeletion :
    (organizationDeletion ctx tables).Faithful
      (contractFor formats (str "organization") .delete) := by
  intro _
  constructor
  · intro hanswers
    obtain ⟨id, hremoval⟩ := removal_of_mem OrganizationRow.id
      (serviceError .notFound (str "Organisation not found.")) hanswers
    have hanswer : (organizationDeletion ctx tables).answer = .returned (idValue id) := hremoval
    rw [hanswer, Outcome.bind_returned]
    exact signable_id (.inr (.inr (.inr (.inl rfl)))) id
  · intro hnone data
    have hselect : tables.organization.select (IdentityService.isOrganization ctx.orgId) = [] :=
      List.filter_eq_nil_iff.mpr fun row hrow hp => hnone ⟨row, hrow, hp⟩
    have hanswer : (organizationDeletion ctx tables).answer =
        .refused (serviceError .notFound (str "Organisation not found.")) := by
      rw [organizationDeletion, hselect]
      rfl
    rw [hanswer]
    intro h
    cases h

/-- Inviting somebody writes only where it answers that the command was
accepted. -/
theorem faithful_memberCreation :
    (memberCreation ctx input ambient tables).Faithful
      (contractFor formats (str "member") .create) := by
  refine faithful_checked ?_
  split
  · exact faithful_idle _
  · rw [invitationCreation]
    cases requestedInvitation ctx input ambient with
    | none => exact faithful_idle _
    | some row => exact faithful_of_signable trivial fun _ => @signable_accepted formats _

/-- Creating a project writes only where the handler comes to answer with the row. -/
theorem faithful_projectCreation :
    (projectCreation ctx input ambient tables).Faithful
      (contractFor formats (str "project") .create) :=
  faithful_of_signable trivial fun _ => signable_project (.inl rfl) _

/-- Founding an organisation writes only where it answers with the row and one
member. -/
theorem faithful_organizationCreation :
    (organizationCreation ctx input ambient tables).Faithful
      (contractFor formats (str "organization") .create) :=
  faithful_of_signable trivial fun _ =>
    @signable_organization formats .create (.inl rfl) (requestedOrganization input ambient) 1
      (by decide)

/-- Changing a project writes only where it answers with the row as it is now. -/
theorem faithful_projectChange :
    (projectChange ctx input ambient tables).Faithful
      (contractFor formats (str "project") .update) := by
  refine faithful_of_signable trivial fun hwrites => ?_
  obtain ⟨row, hrow, hnamed, -⟩ := hwrites
  have hanswer : (projectChange ctx input ambient tables).answer =
      .returned ((projectPatch input).apply ambient.clock row).toValue := by
    rw [projectChange, Table.select_of_key isProject_clash hrow hnamed]
    rfl
  rw [hanswer, Outcome.bind_returned]
  exact signable_project (.inr rfl) _

/-- Changing an organisation answers with a count of members, which has to be a
safe one. -/
theorem faithful_organizationSetting :
    (organizationSetting ctx input tables).Faithful
      (contractFor formats (str "organization") .update) := by
  intro h
  obtain ⟨row, hrow, hnamed, -⟩ := h
  have hanswer : (organizationSetting ctx input tables).answer = .returned
      ((IdentityService.withValues (input.text? (str "name")) (input.text? (str "slug")) row).toValue
        (tables.member.select (IdentityService.ofOrganization ctx.orgId)).length) := by
    rw [organizationSetting, Table.select_of_key isOrganization_clash hrow hnamed]
    rfl
  rw [hanswer, Outcome.bind_returned]
  constructor
  · exact fun hseats => signable_organization (.inr rfl) hseats
  · intro hseats data
    have houtput : (contractFor formats (str "organization") .update).output =
        (organizationDto formats).parse := rfl
    rw [outputOutcome, houtput, organizationDto_refuses (not_le.mp hseats)]
    intro h
    cases h

/-- Changing an organisation looks for the slug first, and that adds no write of its own. -/
theorem faithful_organizationChange :
    (organizationChange ctx input tables).Faithful
      (contractFor formats (str "organization") .update) := by
  have hset : (if slugRefused input tables then Mutation.idle tables
      else organizationSetting ctx input tables).Faithful
        (contractFor formats (str "organization") .update) := by
    split
    · exact faithful_idle _
    · exact faithful_organizationSetting
  rw [organizationChange]
  split
  · exact hset
  · exact hset

/-- Changing a role writes only where it answers with the person as they are
now. -/
theorem faithful_roleChange (target : MemberRow) :
    (roleChange ctx input tables target).Faithful (contractFor formats (str "member") .update) := by
  intro _
  constructor
  · intro h
    obtain ⟨person, hperson, hid⟩ := h
    have hmem : person ∈ tables.user.select (·.id == target.userId) :=
      List.mem_filter.mpr ⟨hperson, beq_iff_eq.mpr hid⟩
    cases hselect : tables.user.select (·.id == target.userId) with
    | nil =>
        rw [hselect] at hmem
        cases hmem
    | cons first rest =>
        have hanswer : ∃ person : Person,
            (roleChange ctx input tables target).answer = .returned person.toValue := by
          rw [roleChange, IdentityService.joinUser]
          show ∃ person : Person, Option.elim (((tables.user.select (·.id == target.userId)).map
            _).head?) _ _ = _
          rw [hselect]
          exact ⟨_, rfl⟩
        obtain ⟨person, hanswer⟩ := hanswer
        rw [hanswer, Outcome.bind_returned]
        exact signable_person person
  · intro hnone data
    have hselect : tables.user.select (·.id == target.userId) = [] :=
      List.filter_eq_nil_iff.mpr fun person hperson hid => hnone ⟨person, hperson, beq_iff_eq.mp hid⟩
    have hanswer : (roleChange ctx input tables target).answer =
        .refused (serviceError .internal (str "The role was not changed.")) := by
      rw [roleChange, IdentityService.joinUser]
      show Option.elim (((tables.user.select (·.id == target.userId)).map _).head?) _ _ = _
      rw [hselect]
      rfl
    rw [hanswer]
    intro h
    cases h

/-- Changing a role looks members up first, and the lookups add no write of their own. -/
theorem faithful_memberChange :
    (memberChange ctx input tables).Faithful (contractFor formats (str "member") .update) := by
  rw [memberChange]
  split
  · exact faithful_idle _
  · cases namedMember ctx input tables with
    | none => exact faithful_checked (faithful_idle _)
    | some target => exact faithful_checked (faithful_guarded (faithful_roleChange target) _ _)

/-- **What every handler answers after its write** passes its output schema and can be
signed. -/
theorem faithful_of_handler {flatten : ResourceKey → Operation → Value → Value}
    {service : ServiceName} {entry : HandlerEntry Handling}
    (h : entry ∈ handlersOf formats flatten service) :
    (mutationOf entry.resource entry.operation ctx input ambient tables).Faithful
      (contractFor formats entry.resource entry.operation) := by
  cases service with
  | projects =>
      simp only [handlersOf, projectHandlers, List.mem_cons, List.not_mem_nil, or_false] at h
      rcases h with rfl | rfl | rfl | rfl
      · exact faithful_idle _
      · exact faithful_projectCreation
      · exact faithful_projectChange
      · exact faithful_projectDeletion
  | identity =>
      simp only [handlersOf, identityHandlers, List.mem_cons, List.not_mem_nil, or_false] at h
      rcases h with rfl | rfl | rfl | rfl | rfl | rfl | rfl | rfl | rfl | rfl | rfl
      · exact faithful_idle _
      · exact faithful_memberCreation
      · exact faithful_memberRemoval (.inl rfl) _ _ _
      · exact faithful_idle _
      · exact faithful_invitationDeletion
      · exact faithful_memberChange
      · exact faithful_idle _
      · exact faithful_organizationCreation
      · exact faithful_organizationChange
      · exact faithful_organizationDeletion
      · exact faithful_membershipDeletion
  | billing =>
      simp only [handlersOf, billingHandlers, List.mem_cons, List.not_mem_nil, or_false] at h
      rcases h with rfl | rfl
      · exact faithful_idle _
      · exact faithful_idle _
  | audit =>
      simp only [handlersOf, auditHandlers, List.mem_cons, List.not_mem_nil, or_false] at h
      subst h
      exact faithful_idle _

end Answers

/-! ## When the caller is told the truth -/

section Settling

variable {crypto : Crypto} {secret : JSString}

/-- A reply that refuses is no success, whatever the request has published by then. -/
theorem not_succeeded_of_refusal {settled : Settled} {route : ReplyRoute} {error : WireError}
    (h : settled.reply = reject crypto secret route error) : ¬ settled.Succeeded := by
  intro h
  obtain ⟨reply, hreply, hok⟩ := h
  rw [h] at hreply
  obtain ⟨signature, rfl, -⟩ := reject_eq_some.mp hreply
  cases hok

/-- A request counts as succeeded only where its handler came to return data. -/
theorem returned_of_succeeded {route : ServiceRoute} {m : RequestMeta} {execution : Execution}
    {published : Bool} (h : (settle crypto secret route m execution published).Succeeded) :
    ∃ data, execution = .returned data := by
  obtain ⟨reply, hreply, hok⟩ := h
  obtain ⟨data, hdata, -⟩ := returned_of_settle hreply hok
  exact ⟨data, hdata⟩

theorem published_of_succeeded {route : ServiceRoute} {m : RequestMeta} {execution : Execution}
    {published : Bool} (h : (settle crypto secret route m execution published).Succeeded)
    (hevent : route.event.isSome = true) : published = true := by
  obtain ⟨subject, hsubject⟩ := Option.isSome_iff_exists.mp hevent
  obtain ⟨data, rfl⟩ := returned_of_succeeded h
  obtain ⟨e, -, hsettle⟩ := @settle_returned crypto secret route subject m data published hsubject
  cases published with
  | true => rfl
  | false =>
      exact (@not_succeeded_of_refusal crypto secret _ m.replyRoute internalError
        (by rw [hsettle]; rfl) h).elim

/-- Data that can be signed is answered, once its event is out. -/
theorem succeeded_of_signable {route : ServiceRoute} {m : RequestMeta} {data : Value}
    {text : JSString} {published : Bool} (hdata : canonicalJson data = some text)
    (hpublished : route.event.isSome = true → published = true) :
    (settle crypto secret route m (.returned data) published).Succeeded ∧
      (route.event.isSome = true →
        (settle crypto secret route m (.returned data) published).event.isSome = true) := by
  obtain ⟨signature, hsucceed⟩ := @succeed_of_canonical crypto secret m data text hdata
  cases hevent : route.event with
  | none =>
      have hsettle : settle crypto secret route m (.returned data) published =
          { event := none, reply := succeed crypto secret m data } := by
        simp only [settle, hevent]
      rw [hsettle, hsucceed]
      refine ⟨⟨_, rfl, rfl⟩, ?_⟩
      intro h
      cases h
  | some subject =>
      obtain ⟨e, -, hsettle⟩ := @settle_returned crypto secret route subject m data published hevent
      rw [hsettle, hpublished (by rw [hevent]; rfl), if_pos rfl, hsucceed]
      exact ⟨⟨_, rfl, rfl⟩, fun _ => rfl⟩

/-- Of the registry's routes, the audited ones have an event subject and the others have
none. -/
theorem event_of_audit {r : SubjectRoute} (hr : r ∈ registry.routes) :
    r.event.isSome = r.audit := by
  obtain ⟨resource, d, operation, rule, -, -, rfl⟩ := Registry.mem_routes.mp hr
  rw [Registry.routeOf]
  dsimp only
  cases rule.audit <;> rfl

end Settling

section Coherence

variable {formats : Formats} {flatten : ResourceKey → Operation → Value → Value}
  {crypto : Crypto} {secret : JSString} {service : ServiceName}
  {rt : ServiceRuntime registry Handling}

theorem coherent_of_same {handled : Handled} {tables : Tables} {raw : Json}
    {outcome : PublishOutcome} (h : handled.tables = tables) :
    handled.Coherent tables raw outcome :=
  ⟨fun _ => h, fun hchanged => (hchanged h).elim⟩

/-- One execution: where its mutation writes and the write takes effect, the
outcome is coherent exactly if nothing fails afterwards. -/
theorem coherent_iff_sound {m : RequestMeta} {b : Binding Handling} {payload input : Value}
    {ambient : Ambient} {faults : Faults} {outcome : PublishOutcome} {tables : Tables} {raw : Json}
    (hexecuted : (executed formats b.entry.resource b.entry.operation (contextOf m) input ambient
      tables).Follows tables (b.entry.execute (contextOf m) payload ambient))
    (hfaithful : (mutationOf b.entry.resource b.entry.operation (contextOf m) input ambient
      tables).Faithful (contractFor formats b.entry.resource b.entry.operation))
    (haudited : Audited raw → b.route.event.isSome = true) :
    Handled.Coherent
      { settled := settle crypto secret b.route m
          (.ofOutcome ((b.entry.execute (contextOf m) payload ambient).run faults tables).1)
          outcome.returned,
        tables := ((b.entry.execute (contextOf m) payload ambient).run faults tables).2 }
      tables raw outcome ↔
    (mutationOf b.entry.resource b.entry.operation (contextOf m) input ambient tables).Sound
      b.route.event faults outcome := by
  generalize hmutation : mutationOf b.entry.resource b.entry.operation (contextOf m) input ambient
    tables = mutation at hfaithful
  rw [executed, hmutation] at hexecuted
  by_cases hwrites : mutation.writes
  · have hrun := hexecuted.run hwrites faults
    dsimp only at hrun
    by_cases hmade : (∀ i < mutation.checks, faults i = none) ∧ faults mutation.checks ≠ some .lost
    · rw [if_pos hmade] at hrun
      rw [hrun]
      dsimp only
      have hchanged : mutation.written ≠ tables := hexecuted.changed hwrites
      obtain ⟨hsignable, hnot⟩ := hfaithful hwrites
      constructor
      · intro hcoherent _ _ _
        have hsucceeded := by_contra fun h => hchanged (hcoherent.refused h)
        obtain ⟨data, hdata⟩ := returned_of_succeeded hsucceeded
        have hnone : ∀ i ≤ mutation.checks + mutation.reads, faults i = none := by
          by_contra hfault
          rw [if_neg hfault] at hdata
          cases hdata
        refine ⟨hnone, ?_, published_of_succeeded hsucceeded⟩
        rw [if_pos hnone] at hdata
        by_contra hanswers
        cases hanswer : mutation.answer.bind (outputOutcome
            (contractFor formats b.entry.resource b.entry.operation)) with
        | returned answer => exact hnot hanswers answer hanswer
        | refused error =>
            rw [hanswer] at hdata
            cases hdata
        | crashed =>
            rw [hanswer] at hdata
            cases hdata
      · intro hsound
        obtain ⟨hnone, hanswers, hpublished⟩ := hsound hwrites hmade.1 hmade.2
        obtain ⟨data, text, hanswer, htext⟩ := hsignable hanswers
        rw [if_pos hnone, hanswer]
        obtain ⟨hsucceeded, hevent⟩ := @succeeded_of_signable crypto secret b.route m data text _
          htext hpublished
        refine ⟨fun h => (h hsucceeded).elim, fun _ h => ?_⟩
        have hroute := haudited h
        exact ⟨hevent hroute, PublishOutcome.reached_of_returned (hpublished hroute)⟩
    · rw [if_neg hmade] at hrun
      rw [hrun]
      exact iff_of_true (coherent_of_same rfl) fun _ hchecks hlost => (hmade ⟨hchecks, hlost⟩).elim
  · exact iff_of_true (coherent_of_same (hexecuted.run_still hwrites faults))
      fun h => (hwrites h).elim

/-- **A refusal leaves nothing behind**, and a change is announced, exactly
where nothing fails after a write. -/
theorem refusals_leave_nothing
    (hboot : defineService registry service (handlersOf formats flatten service) = .ok rt)
    (raw : Json) (subject : JSString) (now : ℤ) (ambient : Ambient) (faults : Faults)
    (outcome : PublishOutcome) (tables : Tables) :
    (handleIn crypto secret rt raw subject now ambient faults outcome tables).Coherent tables raw
        outcome ↔
      ∀ b m payload input, screen crypto secret rt raw subject now = .admitted b m payload →
        (contractFor formats m.resource m.operation).input payload = some input →
        (mutationOf m.resource m.operation (contextOf m) input ambient tables).Sound b.route.event
          faults outcome := by
  cases hscreen : screen crypto secret rt raw subject now with
  | refused route error =>
      refine iff_of_true (coherent_of_same ?_) fun _ _ _ _ h => nomatch h
      rw [handleIn, hscreen]
  | admitted b m payload =>
      obtain ⟨r, hpassed⟩ := passed_of_screen hscreen
      have hhandler := entry_of_defineService hboot b hpassed.bound.1
      have hfollows := follows_of_handler hhandler
      obtain ⟨hresource, hoperation⟩ := hpassed.entry
      have hhandled : handleIn crypto secret rt raw subject now ambient faults outcome tables =
          { settled := settle crypto secret b.route m
              (.ofOutcome ((b.entry.execute (contextOf m) payload ambient).run faults tables).1)
              outcome.returned,
            tables := ((b.entry.execute (contextOf m) payload ambient).run faults tables).2 } := by
        rw [handleIn, hscreen]
      cases hinput : (contractFor formats m.resource m.operation).input payload with
      | none =>
          obtain ⟨error, hrun⟩ := execute_of_invalid hfollows (contextOf m) ambient faults tables
            (by rw [hresource, hoperation]; exact hinput)
          refine iff_of_true (coherent_of_same ?_) ?_
          · rw [hhandled, hrun]
          · intro b' m' payload' input h hinput'
            obtain ⟨rfl, rfl, rfl⟩ := Admission.admitted.inj h
            rw [hinput] at hinput'
            cases hinput'
      | some input =>
          have hsound : (∀ b' m' payload' input', Admission.admitted b m payload =
              .admitted b' m' payload' →
              (contractFor formats m'.resource m'.operation).input payload' = some input' →
              (mutationOf m'.resource m'.operation (contextOf m') input' ambient tables).Sound
                b'.route.event faults outcome) ↔
              (mutationOf b.entry.resource b.entry.operation (contextOf m) input ambient tables).Sound
                b.route.event faults outcome := by
            rw [hresource, hoperation]
            constructor
            · exact fun h => h b m payload input rfl hinput
            · rintro h b' m' payload' input' hsame hinput'
              obtain ⟨rfl, rfl, rfl⟩ := Admission.admitted.inj hsame
              obtain rfl := Option.some.inj (hinput.symm.trans hinput')
              exact h
          rw [hsound, hhandled]
          have hexecuted := execute_follows hfollows (contextOf m) ambient tables
            (show (contractFor formats b.entry.resource b.entry.operation).input payload = some input
              by rw [hresource, hoperation]; exact hinput)
          refine coherent_iff_sound hexecuted (faithful_of_handler hhandler) ?_
          intro haudited
          obtain ⟨e, r', hparse, hroute, haudit⟩ := haudited
          obtain ⟨signature, hparsed, -⟩ := hpassed.signed
          obtain rfl := Option.some.inj (hparsed.symm.trans hparse)
          obtain rfl := Option.some.inj (hpassed.declared.symm.trans hroute)
          rw [hpassed.bound.2]
          exact (event_of_audit (Registry.findRoute_eq_some.mp hroute).1).trans haudit

end Coherence

/-! ## A removal whose event is lost -/

section Demonstration

def noFlatten (_ : ResourceKey) (_ : Operation) (_ : Value) : Value := .null

def launch : ProjectRow :=
  { id := str "p1", organizationId := str "acme", name := str "Launch", slug := str "launch",
    description := none, createdById := str "ada", archivedAt := none,
    createdAt := .ofInstant epoch, updatedAt := .ofInstant epoch }

/-- One project. -/
def launched : Tables :=
  { (default : Tables) with project := ⟨[launch], List.pairwise_singleton _ _⟩ }

/-- The removal is handled by a booted projects service, under a binding that announces an
event. -/
theorem remove_handled : ∃ (rt : ServiceRuntime registry Handling) (e : Envelope)
    (b : Binding Handling),
    defineService registry .projects (handlersOf roughFormats noFlatten .projects) = .ok rt ∧
    screen .transparent (str "secret") rt (e.wire (removeBody (str "p1")))
      (rpcSubject (str "project") .delete) 1000 =
        .admitted b removeMeta (removeBody (str "p1")).toValue ∧
    b.entry = handlerFor roughFormats noFlatten (str "project") .delete projectDelete ∧
    b.route.event = some (str "evt.project.delete") := by
  obtain ⟨rt, hboot⟩ := services_boot roughFormats noFlatten .projects
  obtain ⟨e, hcall, hmeta, hpayload⟩ := remove_honest .transparent (str "secret") (str "p1")
  obtain ⟨b, hscreen, hresource, hoperation⟩ :=
    remove_reaches hcall hmeta hpayload rt (defineService_service hboot)
  obtain ⟨r, hpassed⟩ := passed_of_screen hscreen
  have hentry := entry_of_defineService hboot b hpassed.bound.1
  refine ⟨rt, e, b, hboot, hscreen, (projectHandler_of_operation hentry).2 hoperation, ?_⟩
  have hdeclared : registry.findRoute (str "project") .delete = some r := hpassed.declared
  rw [hpassed.bound.2]
  obtain rfl := Option.some.inj hdeclared
  rfl

/-- The project is gone, its event was never published, and the caller is told
that nothing happened. -/
theorem removal_refused_after_write : ∃ (rt : ServiceRuntime registry Handling) (e : Envelope),
    defineService registry .projects (handlersOf roughFormats noFlatten .projects) = .ok rt ∧
    let handled := handleIn .transparent (str "secret") rt (e.wire (removeBody (str "p1")))
      (rpcSubject (str "project") .delete) 1000 idleAmbient (fun _ => none) (.threw false) launched
    ¬ handled.settled.Succeeded ∧ handled.tables.project.rows = [] ∧
      launched.project.rows = [launch] ∧ ¬ handled.settled.Announced (.threw false) := by
  obtain ⟨rt, e, b, hboot, hscreen, hentry, hevent⟩ := remove_handled
  refine ⟨rt, e, hboot, ?_⟩
  let emptied := launched.project.delete (ProjectService.isProject (str "acme") (str "p1"))
  have hrun : (b.entry.execute (contextOf removeMeta) (removeBody (str "p1")).toValue idleAmbient).run
      (fun _ => none) launched =
        (.returned (idValue (str "p1")), { launched with project := emptied }) := by
    rw [hentry]
    rfl
  obtain ⟨event, -, hsettle⟩ := @settle_returned .transparent (str "secret") b.route _ removeMeta
    (idValue (str "p1")) false hevent
  dsimp only
  rw [handleIn, hscreen]
  dsimp only
  rw [hrun]
  refine ⟨?_, by decide, rfl, fun h => nomatch h.2⟩
  refine @not_succeeded_of_refusal .transparent (str "secret") _ removeMeta.replyRoute internalError ?_
  exact congrArg Settled.reply hsettle

/-- With the event acknowledged, the same removal is coherent: row gone, reply ok, event
stored. -/
theorem acknowledged_removal_coherent : ∃ (rt : ServiceRuntime registry Handling) (e : Envelope),
    defineService registry .projects (handlersOf roughFormats noFlatten .projects) = .ok rt ∧
    (handleIn .transparent (str "secret") rt (e.wire (removeBody (str "p1")))
      (rpcSubject (str "project") .delete) 1000 idleAmbient (fun _ => none) .acknowledged
      launched).Coherent launched (e.wire (removeBody (str "p1"))) .acknowledged := by
  obtain ⟨rt, e, b, hboot, hscreen, -, -⟩ := remove_handled
  refine ⟨rt, e, hboot, (refusals_leave_nothing hboot _ _ _ _ _ _ _).mpr ?_⟩
  intro b' m payload input hadmitted _
  obtain ⟨rfl, rfl, rfl⟩ := Admission.admitted.inj (hscreen.symm.trans hadmitted)
  exact fun _ _ _ => ⟨fun _ _ => rfl, trivial, fun _ => rfl⟩

end Demonstration

end Guardrail
