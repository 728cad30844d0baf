import GuardrailPlatform.IdentityService
import GuardrailPlatform.Slugs
import GuardrailPlatform.Transaction

/-!
# An organisation and its owner

Two paths create an organisation.  `identityService.createOrganization` inserts
it and its first member in one transaction, since "the two rows have to appear
together or not at all".  The hook that runs after a signup inserts the same two
rows, one statement after the other and in no transaction.

The first path makes both rows or none wherever a call fails.  The second does
where the member's insert takes effect whenever the organisation's has.
-/

namespace Guardrail

open Js Words
open Storage (Faults)
open Storage.Program

/-! ## The two inserts -/

/-- `insert(organization).values(row)`, with what `returning()` answers. -/
def insertOrganization (row : OrganizationRow) : Storage.Statement Tables (List OrganizationRow) :=
  fun tables => (tables.organization.insert row).map fun organization =>
    ([row], { tables with organization })

/-- `insert(member).values(row)`. -/
def insertMember (row : MemberRow) : Storage.Statement Tables Unit :=
  fun tables => (tables.member.insert row).map fun member => ((), { tables with member })

section

variable {tables : Tables} {row : OrganizationRow} {first : MemberRow}

/-- Where the organisation's row is refused, the first statement of the hook fails. -/
theorem insertOrganization_of_none (h : tables.organization.insert row = none) :
    insertOrganization row tables = none := by
  rw [insertOrganization, h, Option.map_none]

/-- Where the organisation's row is inserted, the hook goes on with the tables that have it.
-/
theorem insertOrganization_of_some
    {organization : Storage.Table OrganizationRow OrganizationRow.Clash}
    (h : tables.organization.insert row = some organization) :
    insertOrganization row tables = some ([row], { tables with organization }) := by
  rw [insertOrganization, h, Option.map_some]

/-- Where the owner's row is refused, the second statement of the hook fails. -/
theorem insertMember_of_none (h : tables.member.insert first = none) :
    insertMember first tables = none := by
  rw [insertMember, h, Option.map_none]

/-- Where the owner's row is inserted the statement succeeds, and the member table has the
row. -/
theorem insertMember_of_some {member : Storage.Table MemberRow MemberRow.Clash}
    (h : tables.member.insert first = some member) :
    insertMember first tables = some ((), { tables with member }) := by
  rw [insertMember, h, Option.map_some]

end

/-- The statements of the transaction of `createOrganization`. -/
def organizationStatements (row : OrganizationRow) (first : MemberRow) :
    Storing (Option (OrganizationRow × ℕ)) := do
  let inserted ← perform (insertOrganization row)
  match inserted.head? with
  | none => pure none
  | some row => do
    perform (insertMember first)
    pure (some (row, 1))

/-! ## The signup hook -/

/-- What the hook reads of the user that signed up. -/
structure CreatedUser where
  id : JSString
  name : Option JSString
  email : JSString

namespace SignupHook

/-- `slugify` of the auth package. -/
def slugify (toLowerCase : JSString → JSString) (value : JSString) : JSString :=
  let cleaned := trimMarks 45 (collapse isSlugUnit 45 false (toLowerCase value))
  if cleaned.length = 0 then str "workspace" else cleaned.take 32

/-- `email.split("@")[0]`. -/
def localPart (email : JSString) : JSString := email.takeWhile (· != 64)

def named (owner : JSString) : JSString := owner ++ str "'s workspace"

def workspaceName (name : Option JSString) (email : JSString) : JSString :=
  match name.map trim with
  | some (unit :: person) => named (unit :: person)
  | _ =>
    if (localPart email).length = 0 then str "My workspace" else named (localPart email)

section

variable (toLowerCase : JSString → JSString) (created : CreatedUser) (ambient : Ambient)

/-- The organisation the hook inserts.  Its slug ends in the first eight characters of its id. -/
def workspace : OrganizationRow :=
  IdentityService.newOrganization (workspaceName created.name created.email)
    (slugify toLowerCase (workspaceName created.name created.email) ++ str "-" ++
      (ambient.uuid 0).take 8) ambient

/-- The member it inserts after it. -/
def firstMember : MemberRow := IdentityService.newOwner created.id highestRole.name ambient

/-- `databaseHooks.user.create.after`. -/
def after : Storing Unit := do
  let _ ← perform (insertOrganization (workspace toLowerCase created ambient))
  perform (insertMember (firstMember created ambient))

end

end SignupHook

/-! ## All or nothing -/

/-- The two rows are inserted together, or nothing happens. -/
def AllOrNothing (row : OrganizationRow) (first : MemberRow) (before after : Tables) : Prop :=
  after = before ∨ ∃ organization member, before.organization.insert row = some organization ∧
    before.member.insert first = some member ∧ after = { before with organization, member }

/-- The organisation's insert does not take effect, or it answers and the
member's takes effect after it. -/
def OwnerFollows (row : OrganizationRow) (first : MemberRow) (faults : Faults) (before : Tables) :
    Prop :=
  faults 0 = some .lost ∨ (∃ old ∈ before.organization.rows, row.Clash old) ∨
    faults 0 = none ∧ faults 1 ≠ some .lost ∧ ∀ old ∈ before.member.rows, ¬ first.Clash old

variable {row : OrganizationRow} {first : MemberRow}

/-- The transaction, run as one, is the one statement that `createOrganization` is. -/
theorem createOrganization_eq (row : OrganizationRow) (first : MemberRow) :
    IdentityService.createOrganization row first =
      perform (atomically (organizationStatements row first)) := by
  refine congrArg perform (funext fun tables => ?_)
  rw [atomically, run_eq_interrupt, organizationStatements]
  cases horganization : tables.organization.insert row with
  | none =>
      rw [course_perform_bind_of_none (insertOrganization_of_none horganization)]
      rfl
  | some organization =>
      rw [course_perform_bind (insertOrganization_of_some horganization), List.head?_cons]
      dsimp only
      cases hmember : tables.member.insert first with
      | none =>
          have hthrows : insertMember first { tables with organization } = none :=
            insertMember_of_none hmember
          rw [course_perform_bind_of_none hthrows]
          rfl
      | some member =>
          have hinserted : insertMember first { tables with organization } =
              some ((), { tables with organization, member }) := insertMember_of_some hmember
          rw [course_perform_bind hinserted]
          rfl

/-- **The transaction** leaves both rows or nothing, wherever a call of it fails. -/
theorem createOrganization_allOrNothing (row : OrganizationRow) (first : MemberRow)
    (faults : Faults) (commit : Option Storage.Fault) (tables : Tables) :
    AllOrNothing row first tables
      ((organizationStatements row first).transact faults commit tables).2 := by
  obtain ⟨fault, hstore, -⟩ :=
    transact_eq_run (organizationStatements row first) faults commit tables
  rw [hstore, ← createOrganization_eq]
  rcases run_perform_store _ _ tables with hsame | ⟨answer, hdone⟩
  · exact .inl hsame
  · right
    obtain ⟨organization, horganization, hdone⟩ := Option.bind_eq_some_iff.mp hdone
    obtain ⟨member, hmember, hdone⟩ := Option.map_eq_some_iff.mp hdone
    exact ⟨organization, member, horganization, hmember, (Prod.mk.inj hdone).2.symm⟩

/-- An organisation that is left without its owner is neither all nor nothing. -/
theorem not_allOrNothing {before : Tables}
    {organization : Storage.Table OrganizationRow OrganizationRow.Clash}
    (h : before.organization.insert row = some organization) :
    ¬ AllOrNothing row first before { before with organization } := by
  intro hall
  rcases hall with hnothing | ⟨organization', member, -, hmember, hboth⟩
  · exact Storage.Table.insert_ne h (congrArg Tables.organization hnothing)
  · exact Storage.Table.insert_ne hmember (congrArg Tables.member hboth).symm

/-- The member's insert completes the organisation exactly where no row clashes with the
member's. -/
theorem allOrNothing_after_iff {before : Tables}
    {organization : Storage.Table OrganizationRow OrganizationRow.Clash}
    (h : before.organization.insert row = some organization) :
    AllOrNothing row first before ((insertMember first).after { before with organization }) ↔
      ∀ old ∈ before.member.rows, ¬ first.Clash old := by
  by_cases hfree : ∀ old ∈ before.member.rows, ¬ first.Clash old
  · obtain ⟨member, hmember⟩ := Storage.Table.exists_insert hfree
    have hinserted : insertMember first { before with organization } =
        some ((), { before with organization, member }) := insertMember_of_some hmember
    rw [Storage.Statement.after, hinserted]
    exact iff_of_true (.inr ⟨organization, member, h, hmember, rfl⟩) hfree
  · have hclash : ∃ old ∈ before.member.rows, first.Clash old := by simpa using hfree
    have hthrows : insertMember first { before with organization } = none :=
      insertMember_of_none (Storage.Table.insert_eq_none.mpr hclash)
    rw [Storage.Statement.after, hthrows]
    exact iff_of_false (not_allOrNothing h) hfree

/-- **The two inserts alone.**  Both rows or nothing exactly where the owner follows. -/
theorem inserts_allOrNothing_iff (faults : Faults) (before : Tables) :
    AllOrNothing row first before
        (((perform (insertOrganization row) : Storing _) >>= fun _ =>
          perform (insertMember first)).run faults before).2 ↔
      OwnerFollows row first faults before := by
  by_cases hclash : ∃ old ∈ before.organization.rows, row.Clash old
  · rw [run_perform_bind_of_none
      (insertOrganization_of_none (Storage.Table.insert_eq_none.mpr hclash))]
    exact iff_of_true (.inl rfl) (.inr (.inl hclash))
  · obtain ⟨organization, horganization⟩ : ∃ organization,
        before.organization.insert row = some organization :=
      Storage.Table.exists_insert fun old hold h => hclash ⟨old, hold, h⟩
    rw [run_perform_pair (insertOrganization_of_some horganization), OwnerFollows,
      or_iff_right hclash]
    by_cases hlost : faults 0 = some .lost
    · rw [if_pos hlost]
      exact iff_of_true (.inl rfl) (.inl hlost)
    · rw [if_neg hlost, or_iff_right hlost, ← and_assoc]
      by_cases hreached : faults 0 = none ∧ faults 1 ≠ some .lost
      · rw [if_pos hreached, and_iff_right hreached]
        exact allOrNothing_after_iff horganization
      · rw [if_neg hreached]
        exact iff_of_false (not_allOrNothing horganization) fun h => hreached h.1

/-- **Creating an organisation.**  `createOrganization` makes the organisation
and its owner or nothing, wherever a call or the commit fails.  The signup hook
does exactly where the owner's insert takes effect whenever the organisation's
has. -/
theorem organization_created_whole_iff (name slug ownerId ownerRole : JSString)
    (commit : Option Storage.Fault) (toLowerCase : JSString → JSString) (created : CreatedUser)
    (ambient : Ambient) (faults : Faults) (tables : Tables) :
    AllOrNothing (IdentityService.newOrganization name slug ambient)
        (IdentityService.newOwner ownerId ownerRole ambient) tables
        ((organizationStatements (IdentityService.newOrganization name slug ambient)
          (IdentityService.newOwner ownerId ownerRole ambient)).transact faults commit tables).2 ∧
      (AllOrNothing (SignupHook.workspace toLowerCase created ambient)
          (SignupHook.firstMember created ambient) tables
          ((SignupHook.after toLowerCase created ambient).run faults tables).2 ↔
        OwnerFollows (SignupHook.workspace toLowerCase created ambient)
          (SignupHook.firstMember created ambient) faults tables) :=
  ⟨createOrganization_allOrNothing _ _ faults commit tables, inserts_allOrNothing_iff faults tables⟩

/-- A signup whose second insert never reaches the database. -/
def ada : CreatedUser := { id := str "u1", name := none, email := str "ada@example.com" }

def memberLost : Faults := fun call => if call = 1 then some .lost else none

/-- A hook whose second call is lost leaves a workspace with nobody in it. -/
theorem ownerless_workspace :
    let left := ((SignupHook.after asciiLowerCase ada idleAmbient).run memberLost default).2
    left.organization.rows.map (·.name) = [str "ada's workspace"] ∧ left.member.rows = [] ∧
      ¬ AllOrNothing (SignupHook.workspace asciiLowerCase ada idleAmbient)
        (SignupHook.firstMember ada idleAmbient) default left := by
  obtain ⟨organization, hinsert⟩ : ∃ organization, (default : Tables).organization.insert
      (SignupHook.workspace asciiLowerCase ada idleAmbient) = some organization :=
    Storage.Table.exists_insert fun old hold => absurd hold List.not_mem_nil
  have hleft : ((SignupHook.after asciiLowerCase ada idleAmbient).run memberLost default).2 =
      { (default : Tables) with organization } := by
    rw [SignupHook.after, run_perform_bind rfl (insertOrganization_of_some hinsert)]
    rfl
  have hrows := (Storage.Table.insert_eq_some.mp hinsert).2
  intro left
  rw [show left = _ from hleft]
  refine ⟨?_, rfl, not_allOrNothing hinsert⟩
  have hname : (SignupHook.workspace asciiLowerCase ada idleAmbient).name =
      str "ada's workspace" := by decide
  dsimp only
  rw [hrows, List.map_cons, hname]
  rfl

end Guardrail
