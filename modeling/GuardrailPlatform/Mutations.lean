import GuardrailPlatform.Services

/-!
# What a mutation does

Every mutation of the services has one shape: calls that only read, at most
one write, and calls that only read.  A `Mutation` says how many of each, when
there is a write, what it leaves and how the handler then ends; `Follows` ties
it to the handler's logic.  The results about refusals and about owners read
mutations and never the handlers.
-/

namespace Guardrail

open Js
open Storage (Faults Outcome Table)
open Storage.Program (perform query refuse course_perform_bind course_perform_bind_of_none bind_assoc)
open IdentityService

/-- An undisturbed mutation of some tables. -/
structure Mutation where
  /-- Calls before the write. -/
  checks : ℕ
  /-- Calls after it. -/
  reads : ℕ
  /-- Is there a write, and does it change a table? -/
  writes : Prop
  /-- The tables after the write. -/
  written : Tables
  /-- Can the handler answer, once it has written? -/
  answers : Prop
  /-- How the logic ends after the write. -/
  answer : Outcome ServiceError Value

namespace Mutation

/-- Nothing is written. -/
def idle (tables : Tables) : Mutation :=
  { checks := 0, reads := 0, writes := False, written := tables, answers := True,
    answer := .crashed }

/-- The same after one more check. -/
def checked (mutation : Mutation) : Mutation := { mutation with checks := mutation.checks + 1 }

end Mutation

/-! ## The mutations -/

/-- How a removal ends. -/
def removal (row : Option JSString) (error : ServiceError) : Outcome ServiceError Value :=
  match row with
  | none => .refused error
  | some id => .returned (idValue id)

/-- How an answer with an organisation ends. -/
def answering (found : Option (OrganizationRow × ℕ)) (error : ServiceError) :
    Outcome ServiceError Value :=
  match found with
  | none => .refused error
  | some (row, memberCount) => .returned (row.toValue memberCount)

/-- Does the organisation seem to have an owner to spare? -/
def HasSpareOwner (tables : Tables) (organizationId : JSString) : Prop :=
  1 < (ownersOf (membersOf tables organizationId)).length

instance (tables : Tables) (organizationId : JSString) :
    Decidable (HasSpareOwner tables organizationId) := inferInstanceAs (Decidable (_ < _))

/-- The same behind `assertNotTheLastOwner`, where it is asked for. -/
def Mutation.guarded (mutation : Mutation) (demoted : Bool) (tables : Tables)
    (organizationId : JSString) : Mutation :=
  if demoted then
    if HasSpareOwner tables organizationId then mutation.checked else .idle tables
  else mutation

/-- A guarded write is made only where the guard passes, and is otherwise the write it was.
-/
theorem Mutation.guarded_writes {mutation : Mutation} {demoted : Bool} {tables : Tables}
    {organizationId : JSString} (h : (mutation.guarded demoted tables organizationId).writes) :
    (demoted = true → HasSpareOwner tables organizationId) ∧
      ∃ checks, mutation.guarded demoted tables organizationId = { mutation with checks } := by
  unfold guarded at h ⊢
  split
  · rename_i hdemoted
    rw [if_pos hdemoted] at h
    split
    · rename_i hspare
      exact ⟨fun _ => hspare, _, rfl⟩
    · rename_i hspare
      rw [if_neg hspare] at h
      exact h.elim
  · rename_i hdemoted
    exact ⟨fun h => (hdemoted h).elim, _, rfl⟩

section Definitions

variable (ctx : ServiceContext) (input : Value) (ambient : Ambient) (tables : Tables)

def memberRemoval (organizationId memberId : JSString) (error : ServiceError) : Mutation :=
  let named := isMember organizationId memberId
  { checks := 0, reads := 0, writes := ∃ row ∈ tables.member.rows, named row = true,
    written := { tables with member := tables.member.delete named }, answers := True,
    answer := removal (((tables.member.select named).head?).map (·.id)) error }

/-- `member.delete` asks nothing about the row it removes. -/
def memberDeletion : Mutation :=
  memberRemoval tables ctx.orgId (input.text (str "memberId"))
    (serviceError .notFound (str "That person is not in this organisation."))

/-- The caller's own row. -/
def ownMembership : Option MemberRow :=
  (tables.member.select fun row => ofOrganization ctx.orgId row && row.userId == ctx.userId).head?

def membershipDeletion : Mutation :=
  match ownMembership ctx tables with
  | none => (Mutation.idle tables).checked
  | some own =>
    ((memberRemoval tables ctx.orgId own.id
      (serviceError .internal (str "You were not removed."))).guarded
        (normalizeRole own.role == highestRole) tables ctx.orgId).checked

def invitationDeletion : Mutation :=
  let named := isInvitation ctx.orgId (input.text (str "id"))
  { checks := 0, reads := 0, writes := ∃ row ∈ tables.invitation.rows, named row = true,
    written := { tables with invitation := tables.invitation.delete named }, answers := True,
    answer := removal (((tables.invitation.select named).head?).map (·.id))
      (serviceError .notFound (str "Invitation not found.")) }

def projectDeletion : Mutation :=
  let named := ProjectService.isProject ctx.orgId (input.text (str "id"))
  { checks := 0, reads := 0, writes := ∃ row ∈ tables.project.rows, named row = true,
    written := { tables with project := tables.project.delete named }, answers := True,
    answer := removal (((tables.project.select named).head?).map (·.id))
      (serviceError .notFound (str "Project not found.")) }

/-- What belongs to an organisation goes, whether or not its own row is there. -/
def organizationDeletion : Mutation :=
  { checks := 0, reads := 0,
    writes := (∃ row ∈ tables.invitation.rows, invitedTo ctx.orgId row = true) ∨
      (∃ row ∈ tables.member.rows, ofOrganization ctx.orgId row = true) ∨
      ∃ row ∈ tables.organization.rows, isOrganization ctx.orgId row = true,
    written := { tables with
      invitation := tables.invitation.delete (invitedTo ctx.orgId),
      member := tables.member.delete (ofOrganization ctx.orgId),
      organization := tables.organization.delete (isOrganization ctx.orgId) },
    answers := ∃ row ∈ tables.organization.rows, isOrganization ctx.orgId row = true,
    answer := removal
      (((tables.organization.select (isOrganization ctx.orgId)).head?).map (·.id))
      (serviceError .notFound (str "Organisation not found.")) }

/-- Is there a pending invitation of the address to the organisation? -/
def invited (email : JSString) : Bool :=
  (tables.invitation.select fun row =>
    invitedTo ctx.orgId row && row.status == str "pending").any (·.email == email)

def invitationCreation : Mutation :=
  match requestedInvitation ctx input ambient with
  | none => .idle tables
  | some row =>
    { checks := 0, reads := 0, writes := ∀ old ∈ tables.invitation.rows, ¬ row.Clash old,
      written := (tables.invitation.insert row).elim tables fun invitation =>
        { tables with invitation },
      answers := True, answer := .returned (acceptedValue ctx.requestId) }

def memberCreation : Mutation :=
  (if invited ctx tables (input.text (str "email")) then .idle tables
    else invitationCreation ctx input ambient tables).checked

def projectCreation : Mutation :=
  let row := requestedProject ctx input ambient
  Mutation.checked
  { checks := 0, reads := 0, writes := ∀ old ∈ tables.project.rows, ¬ row.Clash old,
    written := (tables.project.insert row).elim tables fun project => { tables with project },
    answers := True, answer := .returned row.toValue }

def organizationCreation : Mutation :=
  let row := requestedOrganization input ambient
  let first := requestedOwner ctx ambient
  Mutation.checked
  { checks := 0, reads := 0,
    writes := (∀ old ∈ tables.organization.rows, ¬ row.Clash old) ∧
      ∀ old ∈ tables.member.rows, ¬ first.Clash old,
    written := (tables.organization.insert row).elim tables fun organization =>
      (tables.member.insert first).elim tables fun member => { tables with organization, member },
    answers := True, answer := .returned (row.toValue 1) }

def projectChange : Mutation :=
  let named := ProjectService.isProject ctx.orgId (input.text (str "id"))
  let set := (projectPatch input).apply ambient.clock
  { checks := 0, reads := 0,
    writes := ∃ row ∈ tables.project.rows, named row = true ∧ set row ≠ row,
    written := (tables.project.update named set).elim tables fun project =>
      { tables with project },
    answers := True,
    answer := ((tables.project.select named).head?).elim
      (.refused (serviceError .notFound (str "Project not found.")))
      fun row => .returned (set row).toValue }

/-- Is the slug the input asks for, if any, some organisation's already? -/
def slugRefused : Bool :=
  (input.text? (str "slug")).any fun slug =>
    ((tables.organization.select (·.slug == slug)).head?).isSome

def organizationSetting : Mutation :=
  let named := isOrganization ctx.orgId
  let set := withValues (input.text? (str "name")) (input.text? (str "slug"))
  { checks := 0, reads := 1,
    writes := ∃ row ∈ tables.organization.rows, named row = true ∧ set row ≠ row,
    written := (tables.organization.update named set).elim tables fun organization =>
      { tables with organization },
    answers := (tables.member.select (ofOrganization ctx.orgId)).length ≤ maxSafeInteger,
    answer := answering
      (((tables.organization.select named).map set).head?.map fun row =>
        (row, (tables.member.select (ofOrganization ctx.orgId)).length))
      (serviceError .notFound (str "Organisation not found.")) }

def organizationChange : Mutation :=
  let change :=
    if slugRefused input tables then .idle tables else organizationSetting ctx input tables
  if (input.text? (str "slug")).isSome then change.checked else change

/-- The row a `member.update` names. -/
def namedMember : Option MemberRow :=
  (tables.member.select (isMember ctx.orgId (input.text (str "memberId")))).head?

/-- Does the input take the owner role from this row? -/
def demotes (target : MemberRow) : Bool :=
  normalizeRole target.role == highestRole && grantedRole input != highestRole

def roleChange (target : MemberRow) : Mutation :=
  let named := isMember ctx.orgId (input.text (str "memberId"))
  let set := withRole (input.text (str "role"))
  { checks := 0, reads := 1, writes := set target ≠ target,
    written := (tables.member.update named set).elim tables fun member => { tables with member },
    answers := ∃ person ∈ tables.user.rows, person.id = target.userId,
    answer := ((joinUser tables.user (set target)).head?).elim
      (.refused (serviceError .internal (str "The role was not changed.")))
      fun person => .returned person.toValue }

def memberChange : Mutation :=
  if ¬ roleAtLeast ctx.role (grantedRole input) then .idle tables
  else
    match namedMember ctx input tables with
    | none => (Mutation.idle tables).checked
    | some target =>
      ((roleChange ctx input tables target).guarded (demotes input target) tables ctx.orgId).checked

end Definitions

/-! ## Following a mutation -/

/-- The course of a program is what the mutation says. -/
structure Mutation.Follows (mutation : Mutation) (tables : Tables) (p : Storing Value) : Prop where
  still : ¬ mutation.writes → ∀ t ∈ (p.course tables).stores, t = tables
  changed : mutation.writes → mutation.written ≠ tables
  course : mutation.writes → p.course tables =
    { stores := List.replicate mutation.checks tables ++
        List.replicate (mutation.reads + 1) mutation.written,
      outcome := mutation.answer }

namespace Mutation.Follows

variable {mutation : Mutation} {tables : Tables} {p : Storing Value}

/-- A program whose every call leaves the tables alone follows a mutation that
does not write. -/
theorem of_still (hwrites : ¬ mutation.writes) (h : ∀ t ∈ (p.course tables).stores, t = tables) :
    mutation.Follows tables p :=
  ⟨fun _ => h, fun hw => (hwrites hw).elim, fun hw => (hwrites hw).elim⟩

theorem of_silent (h : (p.course tables).stores = []) : (idle tables).Follows tables p :=
  of_still id (by simp [h])

/-- A program whose course does not depend on whether its write changes anything. -/
theorem of_course
    (hcourse : p.course tables =
      { stores := List.replicate mutation.checks tables ++
          List.replicate (mutation.reads + 1) mutation.written,
        outcome := mutation.answer })
    (hstill : ¬ mutation.writes → mutation.written = tables)
    (hchanged : mutation.writes → mutation.written ≠ tables) : mutation.Follows tables p := by
  refine ⟨fun hwrites => ?_, hchanged, fun _ => hcourse⟩
  rw [hcourse, hstill hwrites]
  intro t ht
  rcases List.mem_append.mp ht with ht | ht
  · exact List.eq_of_mem_replicate ht
  · exact List.eq_of_mem_replicate ht

/-- A program that starts with a write, which a constraint may refuse, follows its mutation.
-/
theorem of_write {α : Type} {statement : Storage.Statement Tables α} {k : α → Storing Value}
    (hchecks : mutation.checks = 0)
    (hwritten : ∀ a t, statement tables = some (a, t) → t = mutation.written)
    (hquiet : ∀ a t, ∀ u ∈ ((k a).course t).stores, u = t)
    (hmade : mutation.writes → mutation.written ≠ tables ∧
      ∃ a, statement tables = some (a, mutation.written) ∧ (k a).course mutation.written =
        { stores := List.replicate mutation.reads mutation.written, outcome := mutation.answer })
    (hstill : ¬ mutation.writes → statement tables = none ∨ mutation.written = tables) :
    mutation.Follows tables (perform statement >>= k) := by
  refine ⟨fun hwrites => ?_, fun hwrites => (hmade hwrites).1, fun hwrites => ?_⟩
  · cases hresult : statement tables with
    | none =>
        rw [course_perform_bind_of_none hresult]
        simp
    | some result =>
        obtain ⟨a, t⟩ := result
        obtain rfl : t = tables := by
          rcases hstill hwrites with hnone | hsame
          · rw [hnone] at hresult
            cases hresult
          · exact (hwritten a t hresult).trans hsame
        rw [course_perform_bind hresult]
        intro u hu
        rcases List.mem_cons.mp hu with rfl | hu
        · rfl
        · exact hquiet a t u hu
  · obtain ⟨-, a, hresult, hcourse⟩ := hmade hwrites
    rw [course_perform_bind hresult, hcourse, hchecks]
    rfl

theorem query {α : Type} {read : Tables → α} {k : α → Storing Value}
    (h : mutation.Follows tables (k (read tables))) :
    mutation.checked.Follows tables (query read >>= k) := by
  refine ⟨fun hwrites t ht => ?_, h.changed, fun hwrites => ?_⟩
  · rw [Storage.Program.course_query_bind, Storage.Program.Course.cons_stores] at ht
    rcases List.mem_cons.mp ht with rfl | ht
    · rfl
    · exact h.still hwrites t ht
  · rw [Storage.Program.course_query_bind, h.course hwrites]
    rfl

/-- An end that makes no call changes the answer of the mutation, and nothing else. -/
theorem bind_silent {k : Value → Storing Value} {f : Value → Outcome ServiceError Value}
    (h : mutation.Follows tables p) (hk : ∀ v, k v = .done (f v)) :
    Mutation.Follows { mutation with answer := mutation.answer.bind f } tables (p >>= k) := by
  have hcourse := @Storage.Program.course_bind_of_silent _ _ _ _ p _ _ hk tables
  refine ⟨fun hwrites => ?_, h.changed, fun hwrites => ?_⟩
  · rw [hcourse]
    exact h.still hwrites
  · rw [hcourse, h.course hwrites]

/-- **A run of a mutation.**  It leaves the tables alone if a check fails or the
write is lost, and ends with its answer only if nothing fails. -/
theorem run (h : mutation.Follows tables p) (hwrites : mutation.writes) (faults : Faults) :
    p.run faults tables =
      (if ∀ i ≤ mutation.checks + mutation.reads, faults i = none then mutation.answer
        else .crashed,
        if (∀ i < mutation.checks, faults i = none) ∧ faults mutation.checks ≠ some .lost then
          mutation.written
        else tables) := by
  rw [Storage.Program.run_eq_interrupt, h.course hwrites]
  exact Storage.Program.interrupt_write _ _ _ _ _ _

/-- A mutation that does not write leaves the tables alone under any faults. -/
theorem run_still (h : mutation.Follows tables p) (hwrites : ¬ mutation.writes) (faults : Faults) :
    (p.run faults tables).2 = tables := by
  rcases List.mem_cons.mp (Storage.Program.run_mem_course p faults tables) with hsame | hmem
  · exact hsame
  · exact h.still hwrites _ hmem

/-- The guard is one more check of the mutation where it passes, and its end where it does
not. -/
theorem guardOwner {k : Unit → Storing Value} (h : mutation.Follows tables (k ()))
    (demoted : Bool) (organizationId : JSString) :
    (mutation.guarded demoted tables organizationId).Follows tables
      (guardOwner demoted organizationId >>= k) := by
  cases demoted with
  | false => exact h
  | true =>
      show (mutation.guarded true tables organizationId).Follows tables
        (assertNotTheLastOwner organizationId >>= k)
      rw [assertNotTheLastOwner, bind_assoc, guarded, if_pos rfl]
      by_cases hspare : HasSpareOwner tables organizationId
      · rw [if_pos hspare]
        refine query ?_
        rw [if_neg (not_le.mpr hspare)]
        exact h
      · rw [if_neg hspare]
        refine of_still id ?_
        rw [members, Storage.Program.course_query_bind, if_pos (not_lt.mp hspare)]
        simp

end Mutation.Follows

section Follows

variable {ctx : ServiceContext} {input : Value} {ambient : Ambient} {tables : Tables}

/-- The last step of a deletion makes no call, and answers according to the row
it got. -/
theorem course_removed (row : Option JSString) (error : ServiceError) (tables : Tables) :
    (removed row error).course tables = { stores := [], outcome := removal row error } := by
  cases row <;> rfl

/-- Answering with the organisation that was found, or refusing, makes no call. -/
theorem course_answered (found : Option (OrganizationRow × ℕ)) (error : ServiceError)
    (tables : Tables) :
    (answered found error).course tables = { stores := [], outcome := answering found error } := by
  cases found <;> rfl

/-! ## Removals -/

/-- Where a filter finds no row, it refuses every row of the table. -/
theorem none_of_not_exists {ρ : Type} {rows : List ρ} {p : ρ → Bool}
    (h : ¬ ∃ row ∈ rows, p row = true) : ∀ row ∈ rows, p row = false := fun row hrow =>
  Bool.eq_false_iff.mpr fun hp => h ⟨row, hrow, hp⟩

/-- A delete that meets a row changes the table: this is what makes it a write. -/
theorem delete_ne_self {ρ : Type} {clash : ρ → ρ → Prop} {t : Table ρ clash} {p : ρ → Bool}
    (h : ∃ row ∈ t.rows, p row = true) : t.delete p ≠ t := by
  intro hdelete
  obtain ⟨row, hrow, hp⟩ := h
  rw [Table.delete_eq_self.mp hdelete row hrow] at hp
  cases hp

/-- Both operations that remove a member share this storage function and its
mutation. -/
theorem removeMember_follows (organizationId memberId : JSString) (error : ServiceError) :
    (memberRemoval tables organizationId memberId error).Follows tables
      (removeMember organizationId memberId >>= fun row => removed row error) := by
  refine .of_course ?_ ?_ fun h hsame => delete_ne_self h (congrArg Tables.member hsame)
  · rw [removeMember, course_perform_bind rfl, course_removed]
    rfl
  · intro hnone
    rw [memberRemoval, Table.delete_eq_self.mpr (none_of_not_exists hnone)]

/-- `member.delete` deletes the named member of the caller's organisation where there is
one. -/
theorem memberDelete_follows :
    (memberDeletion ctx input tables).Follows tables (memberDelete ctx input ambient) :=
  removeMember_follows _ _ _

/-- `membership.delete` guards the last owner first, and then deletes the caller's own row.
-/
theorem membershipDelete_follows :
    (membershipDeletion ctx tables).Follows tables (membershipDelete ctx input ambient) := by
  rw [membershipDeletion, membershipDelete, membershipOf]
  cases hown : ownMembership ctx tables with
  | none =>
      refine .query ?_
      rw [ownMembership] at hown
      rw [hown]
      exact .of_silent rfl
  | some own =>
      refine .query ?_
      rw [ownMembership] at hown
      rw [hown]
      exact .guardOwner (removeMember_follows _ _ _) _ _

/-- `invitation.delete` deletes the named invitation of the caller's organisation where
there is one. -/
theorem invitationDelete_follows :
    (invitationDeletion ctx input tables).Follows tables (invitationDelete ctx input ambient) := by
  refine .of_course ?_ ?_ fun h hsame => delete_ne_self h (congrArg Tables.invitation hsame)
  · rw [invitationDelete, revokeInvitation, course_perform_bind rfl, course_removed]
    rfl
  · intro hnone
    rw [invitationDeletion, Table.delete_eq_self.mpr (none_of_not_exists hnone)]

/-- `project.delete` deletes the named project of the caller's organisation where there is
one. -/
theorem projectDelete_follows :
    (projectDeletion ctx input tables).Follows tables (projectDelete ctx input ambient) := by
  refine .of_course ?_ ?_ fun h hsame => delete_ne_self h (congrArg Tables.project hsame)
  · rw [projectDelete, ProjectService.remove, course_perform_bind rfl, course_removed]
    rfl
  · intro hnone
    rw [projectDeletion, Table.delete_eq_self.mpr (none_of_not_exists hnone)]

/-- `organization.delete` deletes the caller's organisation, together with its members and
its invitations. -/
theorem organizationDelete_follows :
    (organizationDeletion ctx tables).Follows tables (organizationDelete ctx input ambient) := by
  refine .of_course ?_ ?_ ?_
  · rw [organizationDelete, deleteOrganization, course_perform_bind rfl, course_removed]
    rfl
  · intro hnone
    obtain ⟨hinvitation, hrest⟩ := not_or.mp hnone
    obtain ⟨hmember, horganization⟩ := not_or.mp hrest
    rw [organizationDeletion, Table.delete_eq_self.mpr (none_of_not_exists hinvitation),
      Table.delete_eq_self.mpr (none_of_not_exists hmember),
      Table.delete_eq_self.mpr (none_of_not_exists horganization)]
  · intro hwrites hsame
    rcases hwrites with hwrites | hwrites | hwrites
    · exact delete_ne_self hwrites (congrArg Tables.invitation hsame)
    · exact delete_ne_self hwrites (congrArg Tables.member hsame)
    · exact delete_ne_self hwrites (congrArg Tables.organization hsame)

/-! ## Creations -/

/-- The insertion of an invitation, before whatever only reads the row it
returns. -/
theorem createInvitation_follows {row : InvitationRow} {k : Option InvitationRow → Storing Value}
    {answer : Value} (hk : k (some row) = pure answer)
    (hquiet : ∀ a t, ∀ u ∈ ((k a).course t).stores, u = t) :
    Mutation.Follows
      { checks := 0, reads := 0, writes := ∀ old ∈ tables.invitation.rows, ¬ row.Clash old,
        written := (tables.invitation.insert row).elim tables fun invitation =>
          { tables with invitation },
        answers := True, answer := .returned answer } tables (createInvitation (some row) >>= k) := by
  refine .of_write rfl ?_ hquiet ?_ ?_
  · intro a t hstatement
    obtain ⟨invitation, hinsert, hresult⟩ := Option.map_eq_some_iff.mp hstatement
    rw [hinsert]
    exact (Prod.mk.inj hresult).2.symm
  · intro hfresh
    obtain ⟨invitation, hinsert⟩ := Table.exists_insert hfresh
    simp only [hinsert, Option.elim_some]
    refine ⟨fun hsame => Table.insert_ne hinsert (congrArg Tables.invitation hsame), _, rfl, ?_⟩
    rw [hk]
    rfl
  · intro hclash
    rw [Table.insert_eq_none.mpr (by simpa using hclash)]
    exact .inl rfl

/-- `member.create` looks for a pending invitation, and inserts one where it
finds none. -/
theorem memberCreate_follows :
    (memberCreation ctx input ambient tables).Follows tables (memberCreate ctx input ambient) := by
  rw [memberCreation, memberCreate, invitations]
  refine .query ?_
  by_cases hinvited : invited ctx tables (input.text (str "email")) = true
  · rw [if_pos hinvited]
    rw [invited] at hinvited
    rw [if_pos hinvited]
    exact .of_silent rfl
  · rw [if_neg hinvited]
    rw [invited] at hinvited
    rw [if_neg hinvited, invitationCreation]
    cases requestedInvitation ctx input ambient with
    | none => exact .of_silent rfl
    | some row =>
        refine createInvitation_follows rfl ?_
        intro created
        cases created <;> simp

/-- `project.create` inserts one project, which a slug or an id that is taken refuses. -/
theorem projectCreate_follows :
    (projectCreation ctx input ambient tables).Follows tables (projectCreate ctx input ambient) := by
  rw [projectCreation, projectCreate, ProjectService.bySlug]
  refine .query ?_
  cases hclash : (tables.project.select fun row =>
      row.organizationId == ctx.orgId && row.slug == input.text (str "slug")).head? with
  | some clash =>
      obtain ⟨hmem, hslug⟩ := Table.mem_of_head?_select hclash
      refine .of_still (fun hfresh => ?_) (by simp)
      rw [Bool.and_eq_true, beq_iff_eq, beq_iff_eq] at hslug
      exact hfresh clash hmem (.inr ⟨hslug.1.symm, hslug.2.symm⟩)
  | none =>
      rw [ProjectService.create, Option.isSome_none, if_neg Bool.false_ne_true]
      refine .of_write rfl ?_ ?_ ?_ ?_
      · intro a t hstatement
        obtain ⟨project, hinsert, hresult⟩ := Option.map_eq_some_iff.mp hstatement
        rw [hinsert]
        exact (Prod.mk.inj hresult).2.symm
      · intro created
        cases created <;> simp
      · intro hfresh
        obtain ⟨project, hinsert⟩ := Table.exists_insert hfresh
        simp only [hinsert, Option.elim_some]
        exact ⟨fun hsame => Table.insert_ne hinsert (congrArg Tables.project hsame), _, rfl, rfl⟩
      · intro hclash
        rw [Table.insert_eq_none.mpr (by simpa using hclash)]
        exact .inl rfl

/-- Turning an organisation that was found into an answer makes no call, so the tables stay.
-/
theorem course_answered_quiet (found : Option (OrganizationRow × ℕ)) (error : ServiceError)
    (tables : Tables) : ∀ u ∈ ((answered found error).course tables).stores, u = tables := by
  simp [course_answered]

/-- `organization.create` inserts the organisation and its first owner, both in one
transaction. -/
theorem organizationCreate_follows :
    (organizationCreation ctx input ambient tables).Follows tables
      (organizationCreate ctx input ambient) := by
  rw [organizationCreation, organizationCreate, slugTaken]
  refine .query ?_
  cases hslug : (tables.organization.select (·.slug == input.text (str "slug"))).head? with
  | some other =>
      obtain ⟨hmem, hslug⟩ := Table.mem_of_head?_select hslug
      refine .of_still (fun hfresh => ?_) (by simp)
      exact hfresh.1 other hmem (.inr (beq_iff_eq.mp hslug).symm)
  | none =>
      rw [createOrganization, Option.isSome_none, if_neg Bool.false_ne_true]
      refine .of_write rfl ?_ (fun found => course_answered_quiet found _) ?_ ?_
      · intro a t hstatement
        obtain ⟨organization, hinsert, hrest⟩ := Option.bind_eq_some_iff.mp hstatement
        obtain ⟨member, hmember, hresult⟩ := Option.map_eq_some_iff.mp hrest
        rw [hinsert, Option.elim_some, hmember]
        exact (Prod.mk.inj hresult).2.symm
      · intro ⟨hfresh, hfreshMember⟩
        obtain ⟨organization, hinsert⟩ := Table.exists_insert hfresh
        obtain ⟨member, hmember⟩ := Table.exists_insert hfreshMember
        simp only [hinsert, hmember, Option.elim_some, Option.bind_some]
        exact ⟨fun hsame => Table.insert_ne hinsert (congrArg Tables.organization hsame), _, rfl,
          rfl⟩
      · intro hclash
        refine .inl ?_
        rw [not_and_or] at hclash
        rcases hclash with hclash | hclash
        · rw [Table.insert_eq_none.mpr (by simpa using hclash)]
          rfl
        · have hnone : tables.member.insert (requestedOwner ctx ambient) = none :=
            Table.insert_eq_none.mpr (by simpa using hclash)
          simp [hnone]

/-! ## Changes -/

/-- Two projects that one id names would clash, so an update by id meets one row
at most. -/
theorem isProject_clash {organizationId id : JSString} (a b : ProjectRow)
    (ha : ProjectService.isProject organizationId id a = true)
    (hb : ProjectService.isProject organizationId id b = true) : a.Clash b := by
  rw [ProjectService.isProject, Bool.and_eq_true] at ha hb
  exact .inl ((beq_iff_eq.mp ha.2).trans (beq_iff_eq.mp hb.2).symm)

/-- `project.update` patches the named project of the caller's organisation where there is
one. -/
theorem projectUpdate_follows :
    (projectChange ctx input ambient tables).Follows tables (projectUpdate ctx input ambient) := by
  rw [projectUpdate, ProjectService.update]
  obtain ⟨project, hupdate⟩ : ∃ project, tables.project.update
      (ProjectService.isProject ctx.orgId (input.text (str "id")))
      ((projectPatch input).apply ambient.clock) = some project := by
    refine Table.exists_update ?_
    intro a b hclash
    unfold Table.setWhere at hclash
    split at hclash <;> split at hclash <;> exact hclash
  have hself := Table.update_eq_self hupdate
  refine .of_write rfl ?_ ?_ ?_ ?_
  · intro a t hstatement
    rw [hupdate] at hstatement
    simp only [projectChange, hupdate, Option.elim_some]
    exact (Prod.mk.inj (Option.some.inj hstatement)).2.symm
  · intro updated
    cases updated <;> simp
  · intro ⟨row, hrow, hnamed, hset⟩
    simp only [projectChange, hupdate, Option.elim_some]
    refine ⟨fun hsame => ?_, _, rfl, ?_⟩
    · exact hset (hself.mp (congrArg Tables.project hsame) row hrow hnamed)
    · rw [Table.select_of_key isProject_clash hrow hnamed]
      rfl
  · intro hsame
    simp only [projectChange, hupdate, Option.elim_some]
    rw [hself.mpr fun row hrow hnamed => by_contra fun hset => hsame ⟨row, hrow, hnamed, hset⟩]
    exact .inr rfl

/-- Two organisations of one id would clash, so an update by id meets one row at
most. -/
theorem isOrganization_clash {organizationId : JSString} (a b : OrganizationRow)
    (ha : isOrganization organizationId a = true) (hb : isOrganization organizationId b = true) :
    a.Clash b :=
  .inl ((beq_iff_eq.mp ha).trans (beq_iff_eq.mp hb).symm)

/-- A slug that was asked for and not refused belongs to no organisation yet. -/
theorem slug_of_not_refused {slug : JSString} (hslug : input.text? (str "slug") = some slug)
    (hfree : slugRefused input tables = false) :
    ∀ row ∈ tables.organization.rows, row.slug ≠ slug := by
  intro row hrow heq
  rw [slugRefused, hslug] at hfree
  have hmem : row ∈ tables.organization.select (·.slug == slug) :=
    List.mem_filter.mpr ⟨hrow, beq_iff_eq.mpr heq⟩
  cases hselect : tables.organization.select (·.slug == slug) with
  | nil =>
      rw [hselect] at hmem
      cases hmem
  | cons first rest => simp [hselect] at hfree

/-- Where the slug check passes, no constraint stands against the organisation's new values.
-/
theorem exists_organizationUpdate (organizationId : JSString)
    (hfree : slugRefused input tables = false) :
    ∃ organization, tables.organization.update (isOrganization organizationId)
      (withValues (input.text? (str "name")) (input.text? (str "slug"))) = some organization := by
  cases hslug : input.text? (str "slug") with
  | none =>
      refine Table.exists_update ?_
      intro a b hclash
      unfold Table.setWhere at hclash
      split at hclash <;> split at hclash <;> exact hclash
  | some slug =>
      have hnone := slug_of_not_refused hslug hfree
      refine Table.exists_update_of_key isOrganization_clash ?_
      intro a _ b hb hnamed hother
      have hid : a.id ≠ b.id := by
        intro hid
        rw [isOrganization, ← hid] at hother
        exact absurd hnamed (Bool.eq_false_iff.mp hother)
      constructor
      · rintro (hclash | hclash)
        · exact hid hclash
        · exact hnone b hb hclash.symm
      · rintro (hclash | hclash)
        · exact hid hclash.symm
        · exact hnone b hb hclash

/-- Once the slug was found free, the update fails only where another row took
it. -/
theorem updateOrganization_follows (hfree : slugRefused input tables = false) :
    (organizationSetting ctx input tables).Follows tables
      (updateOrganization ctx.orgId (input.text? (str "name")) (input.text? (str "slug")) >>=
        fun updated => answered updated (serviceError .notFound (str "Organisation not found."))) := by
  obtain ⟨organization, hupdate⟩ := exists_organizationUpdate ctx.orgId hfree
  have hself := Table.update_eq_self hupdate
  rw [updateOrganization]
  by_cases hempty : ((input.text? (str "name")).isNone && (input.text? (str "slug")).isNone) = true
  · rw [if_pos hempty]
    refine .of_still ?_ (by simp)
    intro h
    obtain ⟨row, -, -, hset⟩ := h
    rw [Bool.and_eq_true, Option.isNone_iff_eq_none, Option.isNone_iff_eq_none] at hempty
    rw [hempty.1, hempty.2] at hset
    exact hset rfl
  · rw [if_neg hempty, Storage.Program.bind_assoc]
    refine .of_write rfl ?_ ?_ ?_ ?_
    · intro a t hstatement
      rw [hupdate] at hstatement
      simp only [organizationSetting, hupdate, Option.elim_some]
      exact (Prod.mk.inj (Option.some.inj hstatement)).2.symm
    · intro found t
      cases found with
      | none => exact course_answered_quiet none _ t
      | some row =>
          intro u hu
          dsimp only at hu
          rw [countSeats, Storage.Program.bind_assoc, Storage.Program.course_query_bind] at hu
          rcases List.mem_cons.mp hu with rfl | hu
          · rfl
          · rw [pure_bind] at hu
            exact course_answered_quiet _ _ t u hu
    · intro ⟨row, hrow, hnamed, hset⟩
      simp only [organizationSetting, hupdate, Option.elim_some]
      refine ⟨fun hsame => ?_, _, rfl, ?_⟩
      · exact hset (hself.mp (congrArg Tables.organization hsame) row hrow hnamed)
      · rw [Table.select_of_key isOrganization_clash hrow hnamed]
        rfl
    · intro hsame
      simp only [organizationSetting, hupdate, Option.elim_some]
      rw [hself.mpr fun row hrow hnamed => by_contra fun hset => hsame ⟨row, hrow, hnamed, hset⟩]
      exact .inr rfl

/-- The slug check before an update only reads, and refuses or goes on. -/
theorem unlessRefused_follows :
    (if slugRefused input tables then .idle tables
      else organizationSetting ctx input tables).Follows tables
      (if slugRefused input tables then refuse (slugConflict (input.text (str "slug")))
      else updateOrganization ctx.orgId (input.text? (str "name")) (input.text? (str "slug")) >>=
        fun updated => answered updated
          (serviceError .notFound (str "Organisation not found."))) := by
  cases hrefused : slugRefused input tables with
  | true => exact .of_silent rfl
  | false => exact updateOrganization_follows hrefused

/-- `organization.update` looks whether the new slug is taken, then rewrites the
organisation's row. -/
theorem organizationUpdate_follows :
    (organizationChange ctx input tables).Follows tables (organizationUpdate ctx input ambient) := by
  have hfollows := @unlessRefused_follows ctx input tables
  rw [organizationChange, organizationUpdate]
  cases hslug : input.text? (str "slug") with
  | none =>
      have hfree : slugRefused input tables = false := by rw [slugRefused, hslug]; rfl
      rw [hfree, hslug] at hfollows
      rw [hfree]
      exact hfollows
  | some slug =>
      have hread : ((tables.organization.select (·.slug == slug)).head?).isSome =
          slugRefused input tables := by rw [slugRefused, hslug]; rfl
      rw [hslug] at hfollows
      refine .query ?_
      rw [hread]
      exact hfollows

/-! ## Roles -/

/-- Two members of one id would clash, so a role is changed in one row at most. -/
theorem isMember_clash {organizationId memberId : JSString} (a b : MemberRow)
    (ha : isMember organizationId memberId a = true)
    (hb : isMember organizationId memberId b = true) : a.Clash b := by
  rw [isMember, Bool.and_eq_true] at ha hb
  exact (beq_iff_eq.mp ha.2).trans (beq_iff_eq.mp hb.2).symm

/-- A change of role keeps every key, so the table's constraints never refuse
it. -/
theorem exists_roleUpdate (organizationId : JSString) :
    ∃ member, tables.member.update (isMember organizationId (input.text (str "memberId")))
      (withRole (input.text (str "role"))) = some member := by
  refine Table.exists_update ?_
  intro a b hclash
  unfold Table.setWhere at hclash
  split at hclash <;> split at hclash <;> exact hclash

/-- The change of role of a member that the handler has just looked up. -/
theorem setMemberRole_follows {target : MemberRow}
    (htarget : namedMember ctx input tables = some target) :
    (roleChange ctx input tables target).Follows tables
      (setMemberRole ctx.orgId (input.text (str "memberId")) (input.text (str "role")) >>=
        fun updated => match updated with
          | none => refuse (serviceError .internal (str "The role was not changed."))
          | some person => pure person.toValue) := by
  obtain ⟨hrow, hnamed⟩ := Table.mem_of_head?_select htarget
  have hselect := Table.select_of_key isMember_clash hrow hnamed
  obtain ⟨member, hupdate⟩ := @exists_roleUpdate input tables ctx.orgId
  have hself := Table.update_eq_self hupdate
  rw [setMemberRole, Storage.Program.bind_assoc]
  refine .of_write rfl ?_ ?_ ?_ ?_
  · intro a t hstatement
    rw [hupdate] at hstatement
    simp only [roleChange, hupdate, Option.elim_some]
    exact (Prod.mk.inj (Option.some.inj hstatement)).2.symm
  · intro row t
    cases row with
    | none => simp
    | some row =>
        intro u hu
        dsimp only at hu
        rw [Storage.Program.course_query_bind] at hu
        rcases List.mem_cons.mp hu with rfl | hu
        · rfl
        · cases hperson : (joinUser t.user row).head? <;> simp [hperson] at hu
  · intro hset
    simp only [roleChange, hupdate, Option.elim_some]
    refine ⟨fun hsame => ?_, _, rfl, ?_⟩
    · exact hset (hself.mp (congrArg Tables.member hsame) target hrow hnamed)
    · rw [hselect]
      show (Storage.Program.query (fun t : Tables => (joinUser t.user
        (withRole (input.text (str "role")) target)).head?) >>= _).course _ = _
      rw [Storage.Program.course_query_bind]
      cases hperson : (joinUser tables.user (withRole (input.text (str "role")) target)).head? <;> rfl
  · intro hset
    simp only [roleChange, hupdate, Option.elim_some]
    have hsame : ∀ row ∈ tables.member.rows,
        isMember ctx.orgId (input.text (str "memberId")) row = true →
        withRole (input.text (str "role")) row = row := by
      intro row hmem hrownamed
      have hsingle : row ∈ tables.member.select (isMember ctx.orgId (input.text (str "memberId"))) :=
        List.mem_filter.mpr ⟨hmem, hrownamed⟩
      rw [hselect, List.mem_singleton] at hsingle
      rw [hsingle]
      exact not_not.mp hset
    rw [hself.mpr hsame]
    exact .inr rfl

/-- `member.update` refuses a higher rank, looks the member up, guards the last
owner and sets the role. -/
theorem memberUpdate_follows :
    (memberChange ctx input tables).Follows tables (memberUpdate ctx input ambient) := by
  rw [memberChange, memberUpdate]
  by_cases hgrant : roleAtLeast ctx.role (grantedRole input) = true
  · rw [if_neg (not_not.mpr hgrant), if_neg (not_not.mpr hgrant), memberIn]
    cases htarget : namedMember ctx input tables with
    | none =>
        refine .query ?_
        rw [namedMember] at htarget
        rw [htarget]
        exact .of_silent rfl
    | some target =>
        have hfollows := setMemberRole_follows htarget
        refine .query ?_
        rw [namedMember] at htarget
        rw [htarget]
        exact .guardOwner hfollows _ _
  · rw [if_pos hgrant, if_pos hgrant]
    exact .of_silent rfl

/-! ## Queries -/

/-- A program that only reads follows the mutation which writes nothing. -/
theorem follows_of_frames {p : Storing Value} (h : p.Frames Eq) :
    (Mutation.idle tables).Follows tables p :=
  .of_still id fun t ht => (Storage.Program.course_frames (fun _ => rfl)
    (fun _ _ _ hst htu => hst.trans htu) h tables t ht).symm

/-- A query changes nothing, so a program that begins with one keeps equality if
its rest does. -/
theorem frames_query {α : Type} (read : Tables → α) (k : α → Storing Value)
    (hk : ∀ a, (k a).Frames Eq) : (query read >>= k).Frames Eq :=
  .bind (.query (fun _ => rfl) read) hk

theorem memberRead_follows :
    (Mutation.idle tables).Follows tables (memberRead ctx input ambient) :=
  follows_of_frames (frames_query _ _ fun _ => trivial)

theorem invitationRead_follows :
    (Mutation.idle tables).Follows tables (invitationRead ctx input ambient) :=
  follows_of_frames (frames_query _ _ fun _ => trivial)

theorem organizationRead_follows :
    (Mutation.idle tables).Follows tables (organizationRead ctx input ambient) := by
  refine follows_of_frames ?_
  rw [organizationRead, organizationWithCount, Storage.Program.bind_assoc]
  refine frames_query _ _ fun row => ?_
  cases row with
  | none => trivial
  | some row => exact frames_query _ _ fun _ => trivial

/-- `project.read` writes nothing, whatever cursor it is given and whatever it finds. -/
theorem projectRead_follows (newDate : Value → Option Instant) :
    (Mutation.idle tables).Follows tables (projectRead newDate ctx input ambient) := by
  refine follows_of_frames ?_
  rw [projectRead, ProjectService.list]
  split
  · exact frames_query _ _ fun _ => trivial
  · split
    · trivial
    · exact frames_query _ _ fun _ => trivial

theorem auditLogRead_follows :
    (Mutation.idle tables).Follows tables (auditLogRead ctx input ambient) :=
  follows_of_frames (frames_query _ _ fun _ => trivial)

theorem billingRead_follows :
    (Mutation.idle tables).Follows tables (billingRead ctx input ambient) :=
  follows_of_frames (.bind trivial fun _ => trivial)

/-- `billing.manage` has no table to write to, since a checkout changes Autumn only. -/
theorem billingManage_follows :
    (Mutation.idle tables).Follows tables (billingManage ctx input ambient) :=
  follows_of_frames (.bind trivial fun _ => trivial)

end Follows

/-! ## Every handler -/

/-- What an operation does to the tables. -/
def mutationOf (resource : ResourceKey) (operation : Operation) (ctx : ServiceContext)
    (input : Value) (ambient : Ambient) (tables : Tables) : Mutation :=
  match operation with
  | .create =>
    if resource = str "project" then projectCreation ctx input ambient tables
    else if resource = str "member" then memberCreation ctx input ambient tables
    else if resource = str "organization" then organizationCreation ctx input ambient tables
    else .idle tables
  | .update =>
    if resource = str "project" then projectChange ctx input ambient tables
    else if resource = str "member" then memberChange ctx input tables
    else if resource = str "organization" then organizationChange ctx input tables
    else .idle tables
  | .delete =>
    if resource = str "project" then projectDeletion ctx input tables
    else if resource = str "member" then memberDeletion ctx input tables
    else if resource = str "invitation" then invitationDeletion ctx input tables
    else if resource = str "organization" then organizationDeletion ctx tables
    else if resource = str "membership" then membershipDeletion ctx tables
    else .idle tables
  | _ => .idle tables

/-- An entry built by `handlerFor` from logic that follows its operation's mutation. -/
def FollowsMutation (formats : Formats) (flatten : ResourceKey → Operation → Value → Value)
    (entry : HandlerEntry Handling) : Prop :=
  ∃ (resource : ResourceKey) (operation : Operation) (logic : Logic),
    entry = handlerFor formats flatten resource operation logic ∧
    ∀ ctx input ambient tables,
      (mutationOf resource operation ctx input ambient tables).Follows tables
        (logic ctx input ambient)

/-- **Every handler of the four services follows its mutation**, which says of each store
what it writes and answers. -/
theorem follows_of_handler {formats : Formats} {flatten : ResourceKey → Operation → Value → Value}
    {service : ServiceName} {entry : HandlerEntry Handling}
    (h : entry ∈ handlersOf formats flatten service) : FollowsMutation formats flatten entry := by
  cases service with
  | projects =>
      simp only [handlersOf, projectHandlers, List.mem_cons, List.not_mem_nil, or_false] at h
      rcases h with rfl | rfl | rfl | rfl
      · exact ⟨_, _, _, rfl, fun _ _ _ _ => projectRead_follows _⟩
      · exact ⟨_, _, _, rfl, fun _ _ _ _ => projectCreate_follows⟩
      · exact ⟨_, _, _, rfl, fun _ _ _ _ => projectUpdate_follows⟩
      · exact ⟨_, _, _, rfl, fun _ _ _ _ => projectDelete_follows⟩
  | identity =>
      simp only [handlersOf, identityHandlers, List.mem_cons, List.not_mem_nil, or_false] at h
      rcases h with rfl | rfl | rfl | rfl | rfl | rfl | rfl | rfl | rfl | rfl | rfl
      · exact ⟨_, _, _, rfl, fun _ _ _ _ => memberRead_follows⟩
      · exact ⟨_, _, _, rfl, fun _ _ _ _ => memberCreate_follows⟩
      · exact ⟨_, _, _, rfl, fun _ _ _ _ => memberDelete_follows⟩
      · exact ⟨_, _, _, rfl, fun _ _ _ _ => invitationRead_follows⟩
      · exact ⟨_, _, _, rfl, fun _ _ _ _ => invitationDelete_follows⟩
      · exact ⟨_, _, _, rfl, fun _ _ _ _ => memberUpdate_follows⟩
      · exact ⟨_, _, _, rfl, fun _ _ _ _ => organizationRead_follows⟩
      · exact ⟨_, _, _, rfl, fun _ _ _ _ => organizationCreate_follows⟩
      · exact ⟨_, _, _, rfl, fun _ _ _ _ => organizationUpdate_follows⟩
      · exact ⟨_, _, _, rfl, fun _ _ _ _ => organizationDelete_follows⟩
      · exact ⟨_, _, _, rfl, fun _ _ _ _ => membershipDelete_follows⟩
  | billing =>
      simp only [handlersOf, billingHandlers, List.mem_cons, List.not_mem_nil, or_false] at h
      rcases h with rfl | rfl
      · exact ⟨_, _, _, rfl, fun _ _ _ _ => billingRead_follows⟩
      · exact ⟨_, _, _, rfl, fun _ _ _ _ => billingManage_follows⟩
  | audit =>
      simp only [handlersOf, auditHandlers, List.mem_cons, List.not_mem_nil, or_false] at h
      subst h
      exact ⟨_, _, _, rfl, fun _ _ _ _ => auditLogRead_follows⟩

/-- What the output schema makes of an answer. -/
def outputOutcome (contract : Contract) (output : Value) : Outcome ServiceError Value :=
  match contract.output output with
  | some parsed => .returned parsed
  | none => .crashed

/-- The output check is no call of the store: it ends the handler at once. -/
theorem parseOutput_eq (contract : Contract) (output : Value) :
    parseOutput contract output = .done (outputOutcome contract output) := by
  rw [parseOutput, outputOutcome]
  cases contract.output output <;> rfl

/-- What `execute` does to the tables, once its input is parsed. -/
def executed (formats : Formats) (resource : ResourceKey) (operation : Operation)
    (ctx : ServiceContext) (input : Value) (ambient : Ambient) (tables : Tables) : Mutation :=
  let mutation := mutationOf resource operation ctx input ambient tables
  { mutation with
    answer := mutation.answer.bind (outputOutcome (contractFor formats resource operation)) }

/-- A whole handler runs its mutation, between a parse of the input and one of
the output. -/
theorem execute_follows {formats : Formats} {flatten : ResourceKey → Operation → Value → Value}
    {entry : HandlerEntry Handling} (h : FollowsMutation formats flatten entry)
    (ctx : ServiceContext) {payload input : Value} (ambient : Ambient) (tables : Tables)
    (hinput : (contractFor formats entry.resource entry.operation).input payload = some input) :
    (executed formats entry.resource entry.operation ctx input ambient tables).Follows tables
      (entry.execute ctx payload ambient) := by
  obtain ⟨resource, operation, logic, rfl, hfollows⟩ := h
  have haccepts : (contractFor formats resource operation).input payload = some input := hinput
  rw [handlerFor_accepts haccepts]
  exact (hfollows ctx input ambient tables).bind_silent (parseOutput_eq _)

/-- An input that does not parse is refused before any call, and the tables stay. -/
theorem execute_of_invalid {formats : Formats} {flatten : ResourceKey → Operation → Value → Value}
    {entry : HandlerEntry Handling} (h : FollowsMutation formats flatten entry)
    (ctx : ServiceContext) {payload : Value} (ambient : Ambient) (faults : Faults) (tables : Tables)
    (hinput : (contractFor formats entry.resource entry.operation).input payload = none) :
    ∃ error, (entry.execute ctx payload ambient).run faults tables = (.refused error, tables) := by
  obtain ⟨resource, operation, logic, rfl, -⟩ := h
  have hrejects : (contractFor formats resource operation).input payload = none := hinput
  obtain ⟨error, hexecute⟩ := @handlerFor_rejects formats flatten resource operation logic ctx
    payload ambient hrejects
  rw [hexecute]
  exact ⟨error, rfl⟩

end Guardrail
