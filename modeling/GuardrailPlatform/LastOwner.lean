import GuardrailPlatform.Mutations
import GuardrailPlatform.Trace

/-!
# The last owner

An organisation nobody owns cannot be administered.  Whether it keeps an owner
is decided one write at a time: a role change and a caller's leaving are
guarded by a count of owners, `member.delete` is not.
-/

namespace Guardrail

open Js
open Storage (Faults Table)
open IdentityService

/-! ## Runs of the identity service -/

/-- One handler, called and run to its end before the next. -/
structure Call where
  entry : HandlerEntry Handling
  ctx : ServiceContext
  payload : Value
  ambient : Ambient
  faults : Faults

/-- The tables a call leaves. -/
def Call.after (call : Call) (tables : Tables) : Tables :=
  ((call.entry.execute call.ctx call.payload call.ambient).run call.faults tables).2

/-- The tables after a history of calls, the newest first. -/
def tablesAfter (start : Tables) : List Call → Tables
  | [] => start
  | call :: earlier => call.after (tablesAfter start earlier)

def HasOrganization (tables : Tables) (organizationId : JSString) : Prop :=
  ∃ row ∈ tables.organization.rows, row.id = organizationId

/-- Does the row make its user an owner? -/
def MemberRow.Owns (row : MemberRow) (organizationId : JSString) : Prop :=
  row.organizationId = organizationId ∧ normalizeRole row.role = highestRole

instance (row : MemberRow) (organizationId : JSString) : Decidable (row.Owns organizationId) :=
  inferInstanceAs (Decidable (_ ∧ _))

def HasOwner (tables : Tables) (organizationId : JSString) : Prop :=
  ∃ row ∈ tables.member.rows, row.Owns organizationId

instance (tables : Tables) (organizationId : JSString) :
    Decidable (HasOrganization tables organizationId) :=
  inferInstanceAs (Decidable (∃ row ∈ tables.organization.rows, row.id = organizationId))

instance (tables : Tables) (organizationId : JSString) :
    Decidable (HasOwner tables organizationId) :=
  inferInstanceAs (Decidable (∃ row ∈ tables.member.rows, row.Owns organizationId))

variable (formats : Formats) (flatten : ResourceKey → Operation → Value → Value)

/-- A call the registry's role gates let through, with an input its contract accepts. -/
structure Call.Admitted (call : Call) : Prop where
  handler : call.entry ∈ identityHandlers formats flatten
  permitted : can (registry.permissionsForRole call.ctx.role) call.entry.resource
    call.entry.operation = true
  valid : ((contractFor formats call.entry.resource call.entry.operation).input
    call.payload).isSome = true

/-- If the call is a `member.delete` that reaches an owner of an organisation
there is, that organisation has another. -/
def Call.SparesOwner (call : Call) (tables : Tables) : Prop :=
  call.entry.resource = str "member" → call.entry.operation = .delete →
  call.faults 0 ≠ some .lost → HasOrganization tables call.ctx.orgId →
  ∀ input, (contractFor formats (str "member") .delete).input call.payload = some input →
  ∀ row ∈ tables.member.rows, row.id = input.text (str "memberId") → row.Owns call.ctx.orgId →
  ∃ other ∈ tables.member.rows, other.id ≠ row.id ∧ other.Owns call.ctx.orgId

/-- A run whose calls all meet the condition. -/
def OwnerRun (start : Tables) (history : List Call) : Prop :=
  Trace.Run (fun earlier call => call.Admitted formats flatten ∧
    call.SparesOwner formats (tablesAfter start earlier)) history

/-- An organisation that is there has an owner. -/
def Administered (tables : Tables) (organizationId : JSString) : Prop :=
  HasOrganization tables organizationId → HasOwner tables organizationId

/-! ## Counting owners -/

/-- A member row joins one user at most, the ids of users being distinct. -/
theorem length_joinUser_le (users : Table UserRow UserRow.Clash) (row : MemberRow) :
    (joinUser users row).length ≤ 1 := by
  rw [joinUser, List.length_map]
  cases hselect : users.select (·.id == row.userId) with
  | nil => exact Nat.zero_le 1
  | cons person rest =>
      have hperson : person ∈ users.select (·.id == row.userId) := by
        rw [hselect]
        exact List.mem_cons_self
      obtain ⟨hmem, hid⟩ := List.mem_filter.mp hperson
      have hkey : ∀ a b : UserRow, (a.id == row.userId) = true → (b.id == row.userId) = true →
          a.Clash b := fun a b ha hb => .inl ((beq_iff_eq.mp ha).trans (beq_iff_eq.mp hb).symm)
      rw [← hselect, Table.select_of_key hkey hmem hid]
      exact Nat.le_refl 1

/-- The owners that the guard counts, joined with their users, are no more than the owner
rows. -/
theorem length_ownersOf_le (users : Table UserRow UserRow.Clash) (rows : List MemberRow) :
    (ownersOf (rows.flatMap (joinUser users))).length ≤
      (rows.filter fun row => normalizeRole row.role == highestRole).length := by
  induction rows with
  | nil => exact Nat.le_refl 0
  | cons row rows ih =>
      rw [List.flatMap_cons, ownersOf, List.filter_append, List.length_append, List.filter_cons]
      have hjoin : ∀ person ∈ joinUser users row, person.role = row.role := by
        intro person hperson
        obtain ⟨user, -, rfl⟩ := List.mem_map.mp hperson
        rfl
      by_cases howner : (normalizeRole row.role == highestRole) = true
      · rw [if_pos howner, List.length_cons]
        have hone := (List.length_filter_le (fun person : Person =>
          normalizeRole person.role == highestRole) (joinUser users row)).trans
            (length_joinUser_le users row)
        exact (Nat.add_le_add hone ih).trans (by omega)
      · rw [if_neg howner]
        have hnone : (joinUser users row).filter
            (fun person => normalizeRole person.role == highestRole) = [] := by
          refine List.filter_eq_nil_iff.mpr ?_
          intro person hperson
          rw [hjoin person hperson]
          exact howner
        rw [hnone, List.length_nil, Nat.zero_add]
        exact ih

/-- Where the guard lets a demotion pass, an owner other than the one demoted is left. -/
theorem exists_other_owner {tables : Tables} {organizationId : JSString}
    (h : HasSpareOwner tables organizationId) (row : MemberRow) :
    ∃ other ∈ tables.member.rows, other.id ≠ row.id ∧ other.Owns organizationId := by
  let owners := (tables.member.select (ofOrganization organizationId)).filter
    fun row => normalizeRole row.role == highestRole
  have hsorted : (ownersOf (membersOf tables organizationId)).length ≤ owners.length := by
    have hperm := (List.mergeSort_perm
      ((tables.member.select (ofOrganization organizationId)).flatMap (joinUser tables.user))
      fun a b => decide ((Person.createdAt b).order ≤ (Person.createdAt a).order)).filter
        fun person => normalizeRole person.role == highestRole
    exact hperm.length_eq.le.trans (length_ownersOf_le _ _)
  have howners : 1 < owners.length := Nat.lt_of_lt_of_le h hsorted
  have hmem : ∀ owner ∈ owners, owner ∈ tables.member.rows ∧ owner.Owns organizationId := by
    intro owner howner
    obtain ⟨hselected, hrole⟩ := List.mem_filter.mp howner
    obtain ⟨hrow, horg⟩ := List.mem_filter.mp hselected
    exact ⟨hrow, beq_iff_eq.mp horg, beq_iff_eq.mp hrole⟩
  have hapart : owners.Pairwise fun a b => ¬ a.Clash b := (tables.member.apart.filter _).filter _
  -- of two owners with different ids, one has not this row's
  obtain ⟨first, rest, hfirst⟩ := List.exists_cons_of_length_pos (Nat.zero_lt_of_lt howners)
  rw [hfirst] at howners hmem hapart
  obtain ⟨second, rest, rfl⟩ := List.exists_cons_of_length_pos (Nat.lt_of_succ_lt_succ howners)
  by_cases hid : first.id = row.id
  · have hsecond := hmem second (List.mem_cons_of_mem _ List.mem_cons_self)
    have hdiffer : ¬ first.Clash second := List.rel_of_pairwise_cons hapart List.mem_cons_self
    exact ⟨second, hsecond.1, fun hsame => hdiffer (hid.trans hsame.symm), hsecond.2⟩
  · have hmemFirst := hmem first List.mem_cons_self
    exact ⟨first, hmemFirst.1, hid, hmemFirst.2⟩

/-! ## What one write keeps -/

/-- What a write may do to an organisation's administration. -/
def KeepsOwners (before after : Tables) : Prop :=
  ∀ organizationId, Administered before organizationId → Administered after organizationId

/-- A write that leaves organisations and members alone leaves every organisation with an
owner. -/
theorem keepsOwners_of_same {before after : Tables}
    (horganization : after.organization = before.organization)
    (hmember : after.member = before.member) : KeepsOwners before after := by
  intro organizationId hadministered
  rw [Administered, HasOrganization, HasOwner, horganization, hmember]
  exact hadministered

/-- Two rows of a member table that have one id are the same row. -/
theorem member_unique {tables : Tables} {a b : MemberRow} (ha : a ∈ tables.member.rows)
    (hb : b ∈ tables.member.rows) (hid : a.id = b.id) : a = b := by
  have hkey : ∀ x y : MemberRow, (x.id == a.id) = true → (y.id == a.id) = true → x.Clash y :=
    fun x y hx hy => (beq_iff_eq.mp hx).trans (beq_iff_eq.mp hy).symm
  have hselect := Table.select_of_key hkey ha (beq_iff_eq.mpr rfl)
  rw [Table.select_of_key hkey hb (beq_iff_eq.mpr hid.symm)] at hselect
  exact (List.singleton_inj.mp hselect).symm

/-- Removing a member keeps an owner, if none is removed or another is left. -/
theorem keepsOwners_of_removal {tables : Tables} {organizationId memberId : JSString}
    (hspare : HasOrganization tables organizationId → ∀ row ∈ tables.member.rows,
      row.id = memberId → row.Owns organizationId →
      ∃ other ∈ tables.member.rows, other.id ≠ row.id ∧ other.Owns organizationId) :
    KeepsOwners tables
      { tables with member := tables.member.delete (isMember organizationId memberId) } := by
  intro other hadministered hexists
  obtain ⟨row, hrow, howns⟩ := hadministered hexists
  have hkept : ∀ kept ∈ tables.member.rows, isMember organizationId memberId kept = false →
      kept ∈ (tables.member.delete (isMember organizationId memberId)).rows := by
    intro kept hmem hnamed
    exact List.mem_filter.mpr ⟨hmem, by rw [hnamed]; rfl⟩
  cases hnamed : isMember organizationId memberId row with
  | false => exact ⟨row, hkept row hrow hnamed, howns⟩
  | true =>
      rw [isMember, Bool.and_eq_true, beq_iff_eq, beq_iff_eq] at hnamed
      obtain rfl : organizationId = other := hnamed.1.symm.trans howns.1
      obtain ⟨spare, hspareMem, hid, hspareOwns⟩ := hspare hexists row hrow hnamed.2 howns
      refine ⟨spare, hkept spare hspareMem ?_, hspareOwns⟩
      rw [isMember, ← hnamed.2, beq_false_of_ne hid, Bool.and_false]

/-- Deleting an organisation takes its owners with it, so none is left without. -/
theorem keepsOwners_of_organizationDeletion (ctx : ServiceContext) (tables : Tables) :
    KeepsOwners tables (organizationDeletion ctx tables).written := by
  intro organizationId hadministered ⟨organization, hmem, hid⟩
  obtain ⟨horganization, hnot⟩ := List.mem_filter.mp hmem
  obtain ⟨row, hrow, howns⟩ := hadministered ⟨organization, horganization, hid⟩
  refine ⟨row, List.mem_filter.mpr ⟨hrow, ?_⟩, howns⟩
  rw [ofOrganization, howns.1, ← hid]
  exact hnot

/-- A column that holds the highest role's name is read as the highest role. -/
theorem normalizeRole_highest : normalizeRole highestRole.name = highestRole := by decide

/-- A new organisation comes with its owner, and the others keep theirs. -/
theorem keepsOwners_of_organizationCreation {ctx : ServiceContext} {input : Value}
    {ambient : Ambient} {tables : Tables}
    (hwrites : (organizationCreation ctx input ambient tables).writes) :
    KeepsOwners tables (organizationCreation ctx input ambient tables).written := by
  obtain ⟨organization, hinsert⟩ := Table.exists_insert hwrites.1
  obtain ⟨member, hmember⟩ := Table.exists_insert hwrites.2
  have hwritten : (organizationCreation ctx input ambient tables).written =
      { tables with organization, member } := by
    simp only [organizationCreation, Mutation.checked, hinsert, hmember, Option.elim_some]
  rw [hwritten]
  intro organizationId hadministered h
  obtain ⟨row, hrow, hid⟩ := h
  have hmembers := (Table.insert_eq_some.mp hmember).2
  rw [show organization.rows = _ from (Table.insert_eq_some.mp hinsert).2] at hrow
  rw [HasOwner, hmembers]
  rcases List.mem_cons.mp hrow with rfl | hrow
  · exact ⟨requestedOwner ctx ambient, List.mem_cons_self, hid, normalizeRole_highest⟩
  · obtain ⟨owner, howner, howns⟩ := hadministered ⟨row, hrow, hid⟩
    exact ⟨owner, List.mem_cons_of_mem _ howner, howns⟩

theorem keepsOwners_of_organizationSetting {ctx : ServiceContext} {input : Value} {tables : Tables}
    (hfree : slugRefused input tables = false) :
    KeepsOwners tables (organizationSetting ctx input tables).written := by
  obtain ⟨organization, hupdate⟩ := exists_organizationUpdate ctx.orgId hfree
  have hwritten : (organizationSetting ctx input tables).written =
      { tables with organization } := by
    simp only [organizationSetting, hupdate, Option.elim_some]
  rw [hwritten]
  intro organizationId hadministered h
  obtain ⟨row, hrow, hid⟩ := h
  rw [show organization.rows = _ from (Table.update_eq_some.mp hupdate).2] at hrow
  obtain ⟨old, hold, rfl⟩ := List.mem_map.mp hrow
  refine hadministered ⟨old, hold, ?_⟩
  unfold Table.setWhere at hid
  split at hid <;> exact hid

theorem keepsOwners_of_memberCreation (ctx : ServiceContext) (input : Value) (ambient : Ambient)
    (tables : Tables) : KeepsOwners tables (memberCreation ctx input ambient tables).written := by
  rw [memberCreation, Mutation.checked]
  split
  · exact keepsOwners_of_same rfl rfl
  · rw [invitationCreation]
    cases requestedInvitation ctx input ambient with
    | none => exact keepsOwners_of_same rfl rfl
    | some row =>
        dsimp only
        cases tables.invitation.insert row with
        | none => exact keepsOwners_of_same rfl rfl
        | some invitation => exact keepsOwners_of_same rfl rfl

/-- Changing an organisation's name or slug, or finding the slug taken, touches no member.
-/
theorem keepsOwners_of_organizationChange {ctx : ServiceContext} {input : Value} {tables : Tables} :
    KeepsOwners tables (organizationChange ctx input tables).written := by
  have hset : KeepsOwners tables (if slugRefused input tables then Mutation.idle tables
      else organizationSetting ctx input tables).written := by
    split
    · exact keepsOwners_of_same rfl rfl
    · rename_i hfree
      exact keepsOwners_of_organizationSetting (Bool.eq_false_iff.mpr hfree)
  rw [organizationChange]
  split
  · exact hset
  · exact hset

/-- A granted role that is the highest is read as the highest. -/
theorem normalizeRole_of_granted {input : Value} (h : grantedRole input = highestRole) :
    normalizeRole (input.text (str "role")) = highestRole := by
  rw [grantedRole] at h
  cases hfind : orgRoles.find? fun role => role.name == input.text (str "role") with
  | none =>
      rw [hfind] at h
      exact absurd h (by decide)
  | some role =>
      rw [hfind, Option.getD_some] at h
      have hname := List.find?_some hfind
      rw [beq_iff_eq] at hname
      rw [← hname, h]
      exact normalizeRole_highest

/-- A role change keeps an owner: it demotes none, or the guard has counted another. -/
theorem keepsOwners_of_roleChange {ctx : ServiceContext} {input : Value} {tables : Tables}
    {target : MemberRow} (htarget : namedMember ctx input tables = some target)
    (hspare : demotes input target = true → HasSpareOwner tables ctx.orgId) :
    KeepsOwners tables (roleChange ctx input tables target).written := by
  obtain ⟨member, hupdate⟩ := @exists_roleUpdate input tables ctx.orgId
  have hwritten : (roleChange ctx input tables target).written = { tables with member } := by
    simp only [roleChange, hupdate, Option.elim_some]
  obtain ⟨htargetMem, htargetNamed⟩ := Table.mem_of_head?_select htarget
  rw [isMember, Bool.and_eq_true, beq_iff_eq, beq_iff_eq] at htargetNamed
  let named := isMember ctx.orgId (input.text (str "memberId"))
  let set := withRole (input.text (str "role"))
  have hmem : ∀ row ∈ tables.member.rows, Table.setWhere named set row ∈ member.rows := by
    intro row hrow
    rw [(Table.update_eq_some.mp hupdate).2]
    exact List.mem_map_of_mem hrow
  have hkept : ∀ row ∈ tables.member.rows, named row = false → row ∈ member.rows := by
    intro row hrow hother
    have hset := hmem row hrow
    rwa [Table.setWhere, hother] at hset
  rw [hwritten]
  intro organizationId hadministered hexists
  obtain ⟨row, hrow, howns⟩ := hadministered hexists
  cases hnamed : named row with
  | false => exact ⟨row, hkept row hrow hnamed, howns⟩
  | true =>
      have hset := hmem row hrow
      rw [Table.setWhere, if_pos hnamed] at hset
      have hkeys := hnamed
      rw [show named = isMember _ _ from rfl, isMember, Bool.and_eq_true, beq_iff_eq,
        beq_iff_eq] at hkeys
      obtain rfl : ctx.orgId = organizationId := hkeys.1.symm.trans howns.1
      obtain rfl : row = target := member_unique hrow htargetMem (hkeys.2.trans htargetNamed.2.symm)
      by_cases hgranted : grantedRole input = highestRole
      · exact ⟨set row, hset, howns.1, normalizeRole_of_granted hgranted⟩
      · have hdemotes : demotes input row = true := by
          simp [demotes, howns.2, hgranted]
        obtain ⟨other, hother, hid, hotherOwns⟩ := exists_other_owner (hspare hdemotes) row
        refine ⟨other, hkept other hother ?_, hotherOwns⟩
        show isMember _ _ other = false
        rw [isMember, ← hkeys.2, beq_false_of_ne hid, Bool.and_false]

/-- A change of role that is written demotes an owner only where another is
left. -/
theorem keepsOwners_of_memberChange {ctx : ServiceContext} {input : Value} {tables : Tables}
    (hwrites : (memberChange ctx input tables).writes) :
    KeepsOwners tables (memberChange ctx input tables).written := by
  unfold memberChange at hwrites ⊢
  split
  · exact keepsOwners_of_same rfl rfl
  · rename_i hgrant
    rw [if_neg hgrant] at hwrites
    cases htarget : namedMember ctx input tables with
    | none => exact keepsOwners_of_same rfl rfl
    | some target =>
        rw [htarget] at hwrites
        obtain ⟨hspare, checks, hmutation⟩ := Mutation.guarded_writes hwrites
        show KeepsOwners tables (Mutation.guarded _ _ _ _).written
        rw [hmutation]
        exact keepsOwners_of_roleChange htarget hspare

/-- Leaving keeps the organisation owned, because the guard has counted another owner. -/
theorem keepsOwners_of_membershipDeletion {ctx : ServiceContext} {tables : Tables}
    (hwrites : (membershipDeletion ctx tables).writes) :
    KeepsOwners tables (membershipDeletion ctx tables).written := by
  unfold membershipDeletion at hwrites ⊢
  cases hown : ownMembership ctx tables with
  | none => exact keepsOwners_of_same rfl rfl
  | some own =>
      rw [hown] at hwrites
      obtain ⟨hspare, checks, hmutation⟩ := Mutation.guarded_writes hwrites
      show KeepsOwners tables (Mutation.guarded _ _ _ _).written
      rw [hmutation]
      refine keepsOwners_of_removal ?_
      intro _ row hrow hid howns
      obtain rfl : row = own := member_unique hrow (Table.mem_of_head?_select hown).1 hid
      exact exists_other_owner (hspare (beq_iff_eq.mpr howns.2)) row

/-! ## What a call keeps -/

section Calls

variable {formats flatten}

/-- Every write of the identity service keeps owners, `member.delete`'s under
the condition. -/
theorem keepsOwners_of_mutation {call : Call} {tables : Tables} {input : Value}
    (hadmitted : call.Admitted formats flatten) (hspares : call.SparesOwner formats tables)
    (hinput : (contractFor formats call.entry.resource call.entry.operation).input call.payload =
      some input)
    (hwrites : (mutationOf call.entry.resource call.entry.operation call.ctx input call.ambient
      tables).writes)
    (hmade : call.faults (mutationOf call.entry.resource call.entry.operation call.ctx input
      call.ambient tables).checks ≠ some .lost) :
    KeepsOwners tables (mutationOf call.entry.resource call.entry.operation call.ctx input
      call.ambient tables).written := by
  obtain ⟨entry, ctx, payload, ambient, faults⟩ := call
  have hhandler : entry ∈ identityHandlers formats flatten := hadmitted.handler
  simp only [identityHandlers, List.mem_cons, List.not_mem_nil, or_false] at hhandler
  rcases hhandler with rfl | rfl | rfl | rfl | rfl | rfl | rfl | rfl | rfl | rfl | rfl
  -- member.read
  · exact hwrites.elim
  -- member.create
  · exact keepsOwners_of_memberCreation ctx input ambient tables
  -- member.delete
  · refine keepsOwners_of_removal ?_
    intro hexists row hrow hid howns
    exact hspares rfl rfl hmade hexists input hinput row hrow hid howns
  -- invitation.read
  · exact hwrites.elim
  -- invitation.delete
  · exact keepsOwners_of_same rfl rfl
  -- member.update
  · exact keepsOwners_of_memberChange hwrites
  -- organization.read
  · exact hwrites.elim
  -- organization.create
  · exact keepsOwners_of_organizationCreation hwrites
  -- organization.update
  · exact keepsOwners_of_organizationChange
  -- organization.delete
  · exact keepsOwners_of_organizationDeletion ctx tables
  -- membership.delete
  · exact keepsOwners_of_membershipDeletion hwrites

/-- **One call.**  A call that meets the condition keeps every owner there has to be. -/
theorem keepsOwners_of_call {call : Call} {tables : Tables}
    (hadmitted : call.Admitted formats flatten) (hspares : call.SparesOwner formats tables) :
    KeepsOwners tables (call.after tables) := by
  obtain ⟨input, hinput⟩ := Option.isSome_iff_exists.mp hadmitted.valid
  have hfollows := execute_follows (@follows_of_handler formats flatten .identity _ hadmitted.handler)
    call.ctx call.ambient tables hinput
  by_cases hwrites : (mutationOf call.entry.resource call.entry.operation call.ctx input
      call.ambient tables).writes
  · have hrun := hfollows.run hwrites call.faults
    rw [Call.after, hrun]
    dsimp only
    split
    · rename_i hmade
      exact keepsOwners_of_mutation hadmitted hspares hinput hwrites hmade.2
    · exact keepsOwners_of_same rfl rfl
  · rw [Call.after, hfollows.run_still hwrites]
    exact keepsOwners_of_same rfl rfl

/-- **The last owner.**  In a run whose calls all meet the condition, an
organisation that is there and has an owner has one ever after, as long as it
is there. -/
theorem last_owner_kept {start : Tables} {later earlier : List Call}
    (h : OwnerRun formats flatten start (later ++ earlier)) {organizationId : JSString}
    (howner : HasOwner (tablesAfter start earlier) organizationId)
    (hexists : HasOrganization (tablesAfter start (later ++ earlier)) organizationId) :
    HasOwner (tablesAfter start (later ++ earlier)) organizationId := by
  have hadministered : Administered (tablesAfter start (later ++ earlier)) organizationId := by
    clear hexists
    induction later with
    | nil => exact fun _ => howner
    | cons call later ih =>
        cases h with
        | next hrun hallowed =>
            exact keepsOwners_of_call hallowed.1 hallowed.2 organizationId (ih hrun)
  exact hadministered hexists

end Calls

/-! ## A removal, with one owner and with two -/

section Demonstration

def ownerRow (id userId : JSString) : MemberRow :=
  { id, organizationId := str "o1", userId, role := str "owner", createdAt := .ofInstant epoch }

def acme : OrganizationRow :=
  { id := str "o1", name := str "Acme", slug := str "acme", logo := none, metadata := none,
    createdAt := .ofInstant epoch }

/-- An organisation with one owner. -/
def soleOwned : Tables :=
  { (default : Tables) with
    organization := ⟨[acme], List.pairwise_singleton _ _⟩
    member := ⟨[ownerRow (str "m1") (str "u1")], List.pairwise_singleton _ _⟩ }

/-- The same with a second owner. -/
def coOwned : Tables :=
  { soleOwned with
    member := ⟨[ownerRow (str "m2") (str "u2"), ownerRow (str "m1") (str "u1")], by decide⟩ }

/-- An owner removes the member `m1`. -/
def removeFirst : Call :=
  { entry := handlerFor roughFormats (fun _ _ _ => .null) (str "member") .delete memberDelete
    ctx := { requestId := str "r1", orgId := str "o1", userId := str "u1", role := .owner,
             plan := str "free", deadlineAt := 0 }
    payload := .object [(str "memberId", .string (str "m1"))]
    ambient := idleAmbient
    faults := fun _ => none }

/-- The example's removal of a member is a call that the service admits. -/
theorem removeFirst_admitted : removeFirst.Admitted roughFormats fun _ _ _ => .null where
  handler := by simp [identityHandlers, removeFirst]
  permitted := by decide
  valid := by decide

/-- The sole owner removes their own row, and the organisation is nobody's. -/
theorem sole_owner_removed :
    removeFirst.Admitted roughFormats (fun _ _ _ => .null) ∧
      HasOrganization soleOwned (str "o1") ∧ HasOwner soleOwned (str "o1") ∧
      HasOrganization (removeFirst.after soleOwned) (str "o1") ∧
      ¬ HasOwner (removeFirst.after soleOwned) (str "o1") := by
  refine ⟨removeFirst_admitted, ?_, ?_, ?_, ?_⟩
  · decide
  · decide
  · decide
  · decide

/-- Beside a second owner the same removal meets the condition that spares an owner. -/
theorem removeFirst_spares : removeFirst.SparesOwner roughFormats coOwned := by
  intro _ _ _ _ input hinput row hrow hid _
  obtain rfl : Value.object [(str "memberId", .string (str "m1"))] = input := Option.some.inj hinput
  have hfirst : row.id = str "m1" := hid
  refine ⟨ownerRow (str "m2") (str "u2"), List.mem_cons_self, ?_, by decide⟩
  rw [hfirst]
  decide

/-- With another owner in the table, removing one keeps the organisation owned. -/
theorem co_owner_kept :
    OwnerRun roughFormats (fun _ _ _ => .null) coOwned ([removeFirst] ++ []) ∧
      HasOwner (tablesAfter coOwned ([removeFirst] ++ [])) (str "o1") := by
  have hrun : OwnerRun roughFormats (fun _ _ _ => .null) coOwned ([removeFirst] ++ []) :=
    .next .start ⟨removeFirst_admitted, removeFirst_spares⟩
  exact ⟨hrun, last_owner_kept hrun (by decide) (by decide)⟩

end Demonstration

end Guardrail
