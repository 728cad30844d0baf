import GuardrailPlatform.Installation

/-!
# Signing in

A session is created with an organisation to act in: the one its user has been
a member of the longest.  The gateway then identifies the session by the member
row of that organisation.  The two agree: a user who has a membership is
identified by the session they get, and a user who just signed up has one.
-/

namespace Guardrail

open Js
open Storage (Faults Outcome Table)
open Storage.Program

/-- `orderBy: [asc(createdAt), asc(id)]`, in the collation of the database. -/
def joinedBefore (collates : JSString → JSString → Bool) (a b : MemberRow) : Bool :=
  decide (a.createdAt.order < b.createdAt.order) ||
    (a.createdAt.order == b.createdAt.order && collates a.id b.id)

/-- `query.member.findFirst`, of a user's memberships. -/
def firstMembership (collates : JSString → JSString → Bool) (tables : Tables) (userId : JSString) :
    Option MemberRow :=
  ((tables.member.select fun row => row.userId == userId).mergeSort (joinedBefore collates)).head?

/-- `session.create.before`: what a new session carries. -/
def signIn (collates : JSString → JSString → Bool) (tables : Tables) (userId : JSString) : Session :=
  { userId, activeOrganizationId :=
      (firstMembership collates tables userId).map (·.organizationId) }

/-- A collation puts any two texts in an order. -/
structure Collation (collates : JSString → JSString → Bool) : Prop where
  total : ∀ a b, collates a b = true ∨ collates b a = true
  trans : ∀ a b c, collates a b = true → collates b c = true → collates a c = true

section Order

variable {collates : JSString → JSString → Bool} {tables : Tables} {userId : JSString}

/-- Memberships are ordered by when they began, and then by their ids. -/
theorem joinedBefore_iff {a b : MemberRow} : joinedBefore collates a b = true ↔
    a.createdAt.order < b.createdAt.order ∨
      a.createdAt.order = b.createdAt.order ∧ collates a.id b.id = true := by
  simp [joinedBefore]

theorem joinedBefore_total (h : Collation collates) (a b : MemberRow) :
    (joinedBefore collates a b || joinedBefore collates b a) = true := by
  rw [Bool.or_eq_true_iff, joinedBefore_iff, joinedBefore_iff]
  rcases lt_trichotomy a.createdAt.order b.createdAt.order with hlt | heq | hgt
  · exact .inl (.inl hlt)
  · rcases h.total a.id b.id with hid | hid
    · exact .inl (.inr ⟨heq, hid⟩)
    · exact .inr (.inr ⟨heq.symm, hid⟩)
  · exact .inr (.inl hgt)

/-- The order of memberships is transitive where the collation is, as sorting asks. -/
theorem joinedBefore_trans (h : Collation collates) (a b c : MemberRow)
    (hab : joinedBefore collates a b = true) (hbc : joinedBefore collates b c = true) :
    joinedBefore collates a c = true := by
  rw [joinedBefore_iff] at *
  rcases hab with hab | ⟨hab, hid⟩
  · rcases hbc with hbc | ⟨hbc, -⟩
    · exact .inl (hab.trans hbc)
    · exact .inl (hbc ▸ hab)
  · rcases hbc with hbc | ⟨hbc, hid'⟩
    · exact .inl (hab ▸ hbc)
    · exact .inr ⟨hab.trans hbc, h.trans _ _ _ hid hid'⟩

/-- The first membership is one of the user's, and no other is earlier. -/
theorem firstMembership_eq_some (h : Collation collates) {row : MemberRow}
    (hrow : firstMembership collates tables userId = some row) :
    row ∈ tables.member.rows ∧ row.userId = userId ∧
      ∀ other ∈ tables.member.rows, other.userId = userId →
        joinedBefore collates row other = true := by
  unfold firstMembership at hrow
  obtain ⟨rest, hsorted⟩ := List.head?_eq_some_iff.mp hrow
  have hmem : ∀ other, other ∈ row :: rest ↔ other ∈ tables.member.rows ∧ other.userId = userId := by
    intro other
    rw [← hsorted, List.mem_mergeSort, Table.select, List.mem_filter, beq_iff_eq]
  have hpairs := List.pairwise_mergeSort (joinedBefore_trans h) (joinedBefore_total h)
    (tables.member.select fun row => row.userId == userId)
  rw [hsorted] at hpairs
  obtain ⟨hstored, huser⟩ := (hmem row).mp List.mem_cons_self
  refine ⟨hstored, huser, ?_⟩
  intro other hother hsame
  rcases List.mem_cons.mp ((hmem other).mpr ⟨hother, hsame⟩) with rfl | hlater
  · simpa using joinedBefore_total h other other
  · exact List.rel_of_pairwise_cons hpairs hlater

/-- A user has no first membership exactly where no member row is theirs. -/
theorem firstMembership_eq_none :
    firstMembership collates tables userId = none ↔
      ∀ row ∈ tables.member.rows, row.userId ≠ userId := by
  unfold firstMembership
  rw [List.head?_eq_none_iff, ← List.length_eq_zero_iff, List.length_mergeSort,
    List.length_eq_zero_iff, Table.select, List.filter_eq_nil_iff]
  simp

end Order

/-- A row of the session's user in the session's organisation is enough to be identified. -/
theorem identify_of_row {session : Session} {orgId : JSString} {tables : Tables} {row : MemberRow}
    (horg : session.activeOrganizationId = some orgId) (hnamed : orgId ≠ [])
    (hrow : row ∈ tables.member.rows) (huser : row.userId = session.userId)
    (hin : row.organizationId = orgId) :
    ∃ identity, identify (some session) tables = some identity ∧
      identity.userId = session.userId ∧ identity.orgId = orgId := by
  have hlength : ¬ orgId.length = 0 := by
    rw [List.length_eq_zero_iff]
    exact hnamed
  have hmatch : row ∈ tables.member.select (isMembership session.userId orgId) := by
    unfold Table.select isMembership
    rw [List.mem_filter, huser, hin]
    exact ⟨hrow, by simp⟩
  obtain ⟨found, hfound⟩ := Option.isSome_iff_exists.mp
    (List.isSome_head?.mpr (List.ne_nil_of_mem hmatch))
  unfold identify
  dsimp only
  rw [horg]
  dsimp only
  rw [if_neg hlength, hfound]
  exact ⟨_, rfl, rfl, rfl⟩

/-- **Signing in.**  The session a user gets is identified exactly when they are a
member of something, and then in the organisation they have been a member of
the longest. -/
theorem signIn_identified (collates : JSString → JSString → Bool) (hcollation : Collation collates)
    (tables : Tables) (userId : JSString)
    (hnamed : ∀ row ∈ tables.member.rows, row.organizationId ≠ []) :
    ((identify (some (signIn collates tables userId)) tables).isSome = true ↔
      ∃ row ∈ tables.member.rows, row.userId = userId) ∧
    ∀ identity, identify (some (signIn collates tables userId)) tables = some identity →
      identity.userId = userId ∧ ∃ first ∈ tables.member.rows, first.userId = userId ∧
        first.organizationId = identity.orgId ∧
        ∀ other ∈ tables.member.rows, other.userId = userId →
          first.createdAt.order ≤ other.createdAt.order := by
  cases hfirst : firstMembership collates tables userId with
  | none =>
      have hnone : identify (some (signIn collates tables userId)) tables = none := by
        unfold identify signIn
        rw [hfirst]
        rfl
      rw [hnone]
      refine ⟨⟨?_, ?_⟩, ?_⟩
      · intro h
        cases h
      · intro h
        obtain ⟨row, hrow, huser⟩ := h
        exact absurd huser (firstMembership_eq_none.mp hfirst row hrow)
      · intro identity h
        cases h
  | some first =>
      obtain ⟨hstored, huser, hearliest⟩ := firstMembership_eq_some hcollation hfirst
      have horg : (signIn collates tables userId).activeOrganizationId =
          some first.organizationId := by
        unfold signIn
        rw [hfirst]
        rfl
      obtain ⟨identity, hidentity, hidUser, hidOrg⟩ :=
        identify_of_row horg (hnamed first hstored) hstored huser rfl
      rw [hidentity]
      refine ⟨⟨fun _ => ⟨first, hstored, huser⟩, fun _ => rfl⟩, ?_⟩
      intro identity' h
      obtain rfl := Option.some.inj h
      refine ⟨hidUser, first, hstored, huser, hidOrg.symm, ?_⟩
      intro other hother hsame
      rcases joinedBefore_iff.mp (hearliest other hother hsame) with hlt | ⟨heq, -⟩
      · exact hlt.le
      · exact heq.le

/-! ## After a signup -/

section Signup

variable {toLowerCase : JSString → JSString} {created : CreatedUser} {ambient : Ambient}
  {faults : Faults} {before after : Tables}

/-- A hook that returns has stored its user's member row, in front of those before. -/
theorem member_of_signup (hrun : (SignupHook.after toLowerCase created ambient).run faults before =
    (.returned (), after)) :
    after.member.rows = SignupHook.firstMember created ambient :: before.member.rows := by
  have hreturned : ((SignupHook.after toLowerCase created ambient).run faults before).1 =
      .returned () := by rw [hrun]
  obtain ⟨-, inserted, between, horganization, hnext⟩ := run_call_returned hreturned
  have hsecond : (perform (insertMember (SignupHook.firstMember created ambient)) :
      Storing Unit).run faults.rest between = (.returned (), after) := hnext.symm.trans hrun
  have hreturned' : ((perform (insertMember (SignupHook.firstMember created ambient)) :
      Storing Unit).run faults.rest between).1 = .returned () := by rw [hsecond]
  obtain ⟨-, answer, last, hmember, hlast⟩ := run_call_returned hreturned'
  have hafter : last = after := by
    have := hlast.symm.trans hsecond
    exact (Prod.mk.inj this).2
  obtain ⟨organization, -, hresult⟩ := Option.map_eq_some_iff.mp horganization
  obtain ⟨-, rfl⟩ := Prod.mk.inj hresult
  obtain ⟨member, hinsert, hresult⟩ := Option.map_eq_some_iff.mp hmember
  obtain ⟨-, rfl⟩ := Prod.mk.inj hresult
  rw [← hafter]
  exact (Table.insert_eq_some.mp hinsert).2

/-- **A new user signs in.**  Where the hook of a signup has returned, the session
its user gets is identified: as the owner of the workspace the hook founded. -/
theorem signup_signs_in (collates : JSString → JSString → Bool)
    (hrun : (SignupHook.after toLowerCase created ambient).run faults before = (.returned (), after))
    (hnew : ∀ row ∈ before.member.rows, row.userId ≠ created.id) (hid : ambient.uuid 0 ≠ []) :
    identify (some (signIn collates after created.id)) after =
      some { userId := created.id, orgId := ambient.uuid 0, role := highestRole } := by
  have hrows := member_of_signup hrun
  have huser : (SignupHook.firstMember created ambient).userId = created.id := rfl
  have hothers : ∀ p : MemberRow → Bool, (∀ row ∈ before.member.rows, p row = false) →
      p (SignupHook.firstMember created ambient) = true →
      after.member.select p = [SignupHook.firstMember created ambient] := by
    intro p hbefore hfirst
    unfold Table.select
    rw [hrows, List.filter_cons_of_pos hfirst, List.filter_eq_nil_iff.mpr]
    intro row hrow
    rw [hbefore row hrow]
    decide
  have hfirst : firstMembership collates after created.id =
      some (SignupHook.firstMember created ambient) := by
    unfold firstMembership
    rw [hothers _ (fun row hrow => beq_eq_false_iff_ne.mpr (hnew row hrow))
      (by rw [huser, beq_self_eq_true]), List.mergeSort_singleton]
    rfl
  have hfound : after.member.select (isMembership created.id (ambient.uuid 0)) =
      [SignupHook.firstMember created ambient] := by
    apply hothers
    · intro row hrow
      unfold isMembership
      rw [beq_eq_false_iff_ne.mpr (hnew row hrow)]
      rfl
    · unfold isMembership SignupHook.firstMember IdentityService.newOwner
      simp
  have horg : (signIn collates after created.id).activeOrganizationId = some (ambient.uuid 0) := by
    unfold signIn
    rw [hfirst]
    rfl
  have hlength : ¬ (ambient.uuid 0).length = 0 := by
    rw [List.length_eq_zero_iff]
    exact hid
  have hrole : normalizeRole (SignupHook.firstMember created ambient).role = highestRole := by
    show normalizeRole highestRole.name = highestRole
    decide
  unfold identify
  dsimp only
  rw [horg]
  dsimp only
  rw [if_neg hlength, show (signIn collates after created.id).userId = created.id from rfl, hfound,
    List.head?_cons]
  dsimp only
  rw [hrole]

/-- Ada signs up, and the session she then gets is hers as the owner of her workspace. -/
theorem ada_signs_in : ∃ after : Tables,
    (SignupHook.after id { id := str "ada", name := none, email := str "ada@acme" } idleAmbient).run
      (fun _ => none) default = (.returned (), after) ∧
    identify (some (signIn (fun a b => decide (a ≤ b)) after (str "ada"))) after =
      some { userId := str "ada", orgId := str "0", role := highestRole } := by
  refine ⟨_, rfl, ?_⟩
  apply signup_signs_in _ (rfl : (SignupHook.after id
    { id := str "ada", name := none, email := str "ada@acme" } idleAmbient).run (fun _ => none)
      default = _)
  · intro row hrow
    cases hrow
  · decide

def olderMembership : MemberRow where
  id := str "m2"
  organizationId := str "acme"
  userId := str "ada"
  role := str "member"
  createdAt := .ofInstant epoch

def newerMembership : MemberRow where
  id := str "m1"
  organizationId := str "globex"
  userId := str "ada"
  role := str "owner"
  createdAt := ⟨epoch, ⟨1, by decide⟩⟩

/-- Ada's two memberships, the newer one stored first. -/
def twoMemberships : Tables :=
  { (default : Tables) with member := ⟨[newerMembership, olderMembership], by decide⟩ }

/-- Of two memberships the session acts in the organisation that was joined first. -/
theorem oldest_membership : ∃ identity,
    identify (some (signIn (fun a b => decide (a ≤ b)) twoMemberships (str "ada"))) twoMemberships =
      some identity ∧ identity.userId = str "ada" ∧ identity.orgId = str "acme" := by
  have hcollation : Collation fun a b : JSString => decide (a ≤ b) := by
    refine ⟨?_, ?_⟩
    · intro a b
      simpa using List.le_total a b
    · intro a b c hab hbc
      simp only [decide_eq_true_eq] at *
      exact List.le_trans hab hbc
  have hnamed : ∀ row ∈ twoMemberships.member.rows, row.organizationId ≠ [] := by
    intro row hrow
    rcases List.mem_cons.mp hrow with rfl | hrow
    · decide
    · rcases List.mem_cons.mp hrow with rfl | hrow
      · decide
      · cases hrow
  obtain ⟨hsome, hfirst⟩ := signIn_identified _ hcollation twoMemberships (str "ada") hnamed
  obtain ⟨identity, hidentity⟩ := Option.isSome_iff_exists.mp
    (hsome.mpr ⟨newerMembership, List.mem_cons_self, rfl⟩)
  obtain ⟨huser, first, hstored, -, horg, hearliest⟩ := hfirst identity hidentity
  refine ⟨identity, hidentity, huser, ?_⟩
  rw [← horg]
  rcases List.mem_cons.mp hstored with rfl | hstored
  · have := hearliest olderMembership (List.mem_cons_of_mem _ List.mem_cons_self) rfl
    exact absurd this (by decide)
  · rcases List.mem_cons.mp hstored with rfl | hstored
    · rfl
    · cases hstored

end Signup

end Guardrail
