import GuardrailPlatform.HandlerFrames
import GuardrailPlatform.Interleaving
import GuardrailPlatform.LastOwner

/-!
# The last owner, concurrently

`member.update` and `membership.delete` read the row they are about to take the
owner role from, count the owners in a second query and write in a third call,
in no transaction.  What a request has read may be old by the time it writes.

An owner is left as long as no decision is stale: every write that takes the
role from a row is made where `assertNotTheLastOwner` would still pass.  A
request nobody disturbs meets this; two owners who leave at once do not.
-/

namespace Guardrail

open Js
open Storage (Program Shared Table Turn)
open Storage.Program (Frames refuse)
open IdentityService

/-! ## Requests -/

structure Request where
  entry : HandlerEntry Handling
  ctx : ServiceContext
  payload : Value
  ambient : Ambient

def Request.program (request : Request) : Storing Value :=
  request.entry.execute request.ctx request.payload request.ambient

/-- A `member.update` or a `membership.delete` of one organisation. -/
structure Request.Concerns (formats : Formats) (flatten : ResourceKey → Operation → Value → Value)
    (organizationId : JSString) (request : Request) : Prop where
  handler : request.entry = handlerFor formats flatten (str "member") .update memberUpdate ∨
    request.entry = handlerFor formats flatten (str "membership") .delete membershipDelete
  organization : request.ctx.orgId = organizationId

/-- Requests that have arrived and made no call yet. -/
def arrived {ι : Type} (requests : ι → Request) (tables : Tables) :
    Shared ι Tables ServiceError Value :=
  { store := tables, threads := fun i => (requests i).program }

/-! ## What one write does -/

/-- At most one member row is changed or removed. -/
def TouchesOne (before after : Tables) : Prop :=
  ∃ id, ∀ row ∈ before.member.rows, row.id ≠ id → row ∈ after.member.rows

/-- If the owner role of an organisation is taken from a row, the guard would pass. -/
def TakesSpare (organizationId : JSString) (before after : Tables) : Prop :=
  ∀ row ∈ before.member.rows, row.Owns organizationId →
    (∀ kept ∈ after.member.rows, kept.id = row.id → ¬ kept.Owns organizationId) →
    HasSpareOwner before organizationId

/-- A store that is left as it is has touched no member. -/
theorem TouchesOne.refl (tables : Tables) : TouchesOne tables tables :=
  ⟨[], fun _ hrow _ => hrow⟩

/-- A store that is left as it is has taken no owner. -/
theorem TakesSpare.refl (organizationId : JSString) (tables : Tables) :
    TakesSpare organizationId tables tables := by
  intro row hrow howns htaken
  exact (htaken row hrow rfl howns).elim

/-- A write that takes the role only where there is one to spare leaves an owner. -/
theorem hasOwner_of_takesSpare {organizationId : JSString} {before after : Tables}
    (hone : TouchesOne before after) (hspare : TakesSpare organizationId before after)
    (howner : HasOwner before organizationId) : HasOwner after organizationId := by
  obtain ⟨id, hothers⟩ := hone
  obtain ⟨row, hrow, howns⟩ := howner
  by_cases hid : row.id = id
  · by_cases hkept : ∃ kept ∈ after.member.rows, kept.id = row.id ∧ kept.Owns organizationId
    · obtain ⟨kept, hmem, -, hkeptOwns⟩ := hkept
      exact ⟨kept, hmem, hkeptOwns⟩
    · have htaken : HasSpareOwner before organizationId := by
        refine hspare row hrow howns ?_
        intro kept hmem hsame hkeptOwns
        exact hkept ⟨kept, hmem, hsame, hkeptOwns⟩
      obtain ⟨other, hother, hdiffer, hotherOwns⟩ := exists_other_owner htaken row
      exact ⟨other, hothers other hother (hid ▸ hdiffer), hotherOwns⟩
  · exact ⟨row, hothers row hrow hid, howns⟩

/-! ## Every statement -/

/-- Removing a member by id takes one row at the most, the ids of the table being distinct.
-/
theorem removeMember_touchesOne (organizationId memberId : JSString) :
    (removeMember organizationId memberId).Frames TouchesOne := by
  refine removeMember_frames fun tables => ⟨memberId, fun row hrow hid => ?_⟩
  refine List.mem_filter.mpr ⟨hrow, ?_⟩
  rw [isMember, beq_false_of_ne hid, Bool.and_false]
  rfl

/-- A change of role touches one member at the most, the one it names. -/
theorem setMemberRole_touchesOne (organizationId memberId role : JSString) :
    (setMemberRole organizationId memberId role).Frames TouchesOne := by
  refine setMemberRole_frames TouchesOne.refl fun tables member hupdate => ?_
  refine ⟨memberId, fun row hrow hid => ?_⟩
  have hset : Table.setWhere (isMember organizationId memberId) (withRole role) row = row := by
    rw [Table.setWhere, isMember, beq_false_of_ne hid, Bool.and_false, if_neg Bool.false_ne_true]
  show row ∈ member.rows
  rw [(Table.update_eq_some.mp hupdate).2, ← hset]
  exact List.mem_map_of_mem hrow

section Programs

variable {formats : Formats} {flatten : ResourceKey → Operation → Value → Value}
  {organizationId : JSString} {request : Request}

/-- Each of the requests in question touches one member at the most. -/
theorem touchesOne_of_concerns (h : request.Concerns formats flatten organizationId) :
    request.program.Frames TouchesOne := by
  unfold Request.program
  rcases h.handler with hentry | hentry
  · rw [hentry]
    exact handlerFor_frames fun _ _ =>
      memberUpdate_frames TouchesOne.refl (setMemberRole_touchesOne _ _ _)
  · rw [hentry]
    exact handlerFor_frames fun _ _ =>
      membershipDelete_frames TouchesOne.refl fun _ => removeMember_touchesOne _ _

/-! ## A request nobody disturbs -/

/-- Behind the guard a write may count on what the guard counted. -/
theorem careful_guardOwner {α : Type} {demoted : Bool} {tables : Tables} {k : Unit → Storing α}
    (h : (demoted = true → HasSpareOwner tables organizationId) →
      (k ()).Careful (TakesSpare organizationId) tables) :
    (guardOwner demoted organizationId >>= k).Careful (TakesSpare organizationId) tables := by
  unfold guardOwner
  split
  · rw [assertNotTheLastOwner, Program.bind_assoc]
    refine Storage.Program.careful_query_bind (TakesSpare.refl organizationId) ?_
    split
    · trivial
    · rename_i hspare
      exact h fun _ => not_le.mp hspare
  · rename_i hdemoted
    exact h fun h => (hdemoted h).elim

/-- The role is taken from the row a removal names, if from any. -/
theorem removeMember_careful {memberId : JSString} {tables : Tables}
    (hspare : ∀ row ∈ tables.member.rows, row.id = memberId → row.Owns organizationId →
      HasSpareOwner tables organizationId) :
    (removeMember organizationId memberId).Careful (TakesSpare organizationId) tables := by
  intro b t hstatement
  obtain ⟨-, rfl⟩ := Prod.mk.inj (Option.some.inj hstatement)
  refine ⟨fun row hrow howns htaken => ?_, trivial⟩
  by_cases hid : row.id = memberId
  · exact hspare row hrow hid howns
  · refine (htaken row (List.mem_filter.mpr ⟨hrow, ?_⟩) rfl howns).elim
    rw [isMember, beq_false_of_ne hid, Bool.and_false]
    rfl

/-- A new role takes the owner role from the row it is given to, if from any. -/
theorem setMemberRole_careful {memberId role : JSString} {tables : Tables}
    (hspare : ∀ row ∈ tables.member.rows, row.id = memberId → row.Owns organizationId →
      normalizeRole role ≠ highestRole → HasSpareOwner tables organizationId) :
    (setMemberRole organizationId memberId role).Careful (TakesSpare organizationId) tables := by
  refine Storage.Program.careful_perform_bind fun changed after hstatement => ?_
  obtain ⟨member, hupdate, hresult⟩ := Option.map_eq_some_iff.mp hstatement
  obtain ⟨-, rfl⟩ := Prod.mk.inj hresult
  constructor
  · intro row hrow howns htaken
    let named := isMember organizationId memberId
    have hset : Table.setWhere named (withRole role) row ∈ member.rows := by
      rw [(Table.update_eq_some.mp hupdate).2]
      exact List.mem_map_of_mem hrow
    by_cases hnamed : named row = true
    · rw [Table.setWhere, if_pos hnamed] at hset
      have hkeys := hnamed
      rw [show named = isMember _ _ from rfl, isMember, Bool.and_eq_true, beq_iff_eq,
        beq_iff_eq] at hkeys
      refine hspare row hrow hkeys.2 howns fun hrole => ?_
      exact htaken _ hset rfl ⟨howns.1, hrole⟩
    · rw [Table.setWhere, if_neg hnamed] at hset
      exact (htaken row hset rfl howns).elim
  · refine Frames.careful ?_ _
    cases changed with
    | none => trivial
    | some row => exact .query (TakesSpare.refl organizationId) _

/-- Leaving takes an owner only where the guard has just seen another. -/
theorem membershipDelete_careful {ctx : ServiceContext} (input : Value) (ambient : Ambient)
    (tables : Tables) :
    (membershipDelete ctx input ambient).Careful (TakesSpare ctx.orgId) tables := by
  refine Storage.Program.careful_query_bind (TakesSpare.refl _) ?_
  cases hown : ownMembership ctx tables with
  | none =>
      rw [ownMembership] at hown
      rw [hown]
      trivial
  | some own =>
      have hmem := (Table.mem_of_head?_select hown).1
      rw [ownMembership] at hown
      rw [hown]
      refine careful_guardOwner fun hspare => ?_
      refine (removeMember_careful ?_).bind fun row => frames_removed row _
      intro row hrow hid howns
      obtain rfl := member_unique hrow hmem hid
      exact hspare (beq_iff_eq.mpr howns.2)

/-- Demoting takes an owner only where the guard has just seen another. -/
theorem memberUpdate_careful {ctx : ServiceContext} (input : Value) (ambient : Ambient)
    (tables : Tables) :
    (memberUpdate ctx input ambient).Careful (TakesSpare ctx.orgId) tables := by
  unfold memberUpdate
  split
  · trivial
  · refine Storage.Program.careful_query_bind (TakesSpare.refl _) ?_
    cases htarget : namedMember ctx input tables with
    | none =>
        rw [namedMember] at htarget
        rw [htarget]
        trivial
    | some target =>
        obtain ⟨hmem, hnamed⟩ := Table.mem_of_head?_select htarget
        rw [isMember, Bool.and_eq_true, beq_iff_eq, beq_iff_eq] at hnamed
        rw [namedMember] at htarget
        rw [htarget]
        refine careful_guardOwner fun hspare => ?_
        refine (setMemberRole_careful ?_).bind fun updated => ?_
        · intro row hrow hid howns hrole
          obtain rfl := member_unique hrow hmem (hid.trans hnamed.2.symm)
          have hgranted : grantedRole input ≠ highestRole :=
            fun hgranted => hrole (normalizeRole_of_granted hgranted)
          exact hspare (by simp [howns.2, hgranted])
        · cases updated <;> trivial

/-- **Undisturbed.**  A request takes the owner role only where its guard has
just found one to spare. -/
theorem careful_of_concerns (h : request.Concerns formats flatten organizationId)
    (tables : Tables) : request.program.Careful (TakesSpare organizationId) tables := by
  have hexecute : ∀ {resource operation run},
      (∀ input, (run request.ctx input request.ambient).Careful
        (TakesSpare organizationId) tables) →
      ((handlerFor formats flatten resource operation run).execute request.ctx request.payload
        request.ambient).Careful (TakesSpare organizationId) tables := by
    intro resource operation run hrun
    apply handlerFor_cases
      (motive := fun program => program.Careful (TakesSpare organizationId) tables)
    · intro error
      trivial
    · intro input _
      exact (hrun input).bind fun output => frames_parseOutput _ output
  unfold Request.program
  rw [← h.organization] at hexecute ⊢
  rcases h.handler with hentry | hentry
  · rw [hentry]
    exact hexecute fun input => memberUpdate_careful input _ _
  · rw [hentry]
    exact hexecute fun input => membershipDelete_careful input _ _

end Programs

/-! ## Any number of requests -/

section Runs

variable {ι : Type} [DecidableEq ι] {formats : Formats}
  {flatten : ResourceKey → Operation → Value → Value} {organizationId : JSString}
  {requests : ι → Request} {tables : Tables}

/-- **The last owner.**  However the calls of any number of role changes and
departures are interleaved, and wherever they fail, an owner is left, if every
write that takes the role is made where the guard would still pass. -/
theorem owner_kept_concurrently
    (hrequests : ∀ i, (requests i).Concerns formats flatten organizationId)
    (howner : HasOwner tables organizationId) {turns : List (Turn ι)}
    (hrun : Trace.Run ((arrived requests tables).Allowed (TakesSpare organizationId)) turns) :
    HasOwner ((arrived requests tables).after turns).store organizationId :=
  Shared.after_invariant TouchesOne.refl (fun i => touchesOne_of_concerns (hrequests i))
    (fun _ _ hone hspare h => hasOwner_of_takesSpare hone hspare h) howner hrun

/-- A request that has every turn meets the condition, whatever it finds. -/
theorem takesSpare_alone {i : ι} (hrequest : (requests i).Concerns formats flatten organizationId)
    {turns : List (Turn ι)} (halone : ∀ turn ∈ turns, turn.thread = i) :
    Trace.Run ((arrived requests tables).Allowed (TakesSpare organizationId)) turns :=
  Shared.allowed_alone (TakesSpare.refl organizationId)
    (show ((arrived requests tables).threads i).Careful _ _ from
      careful_of_concerns hrequest tables) halone

end Runs

/-! ## Two owners leave -/

section Demonstration

def person (id email : JSString) : UserRow := { id, name := str "Ada", email, image := none }

/-- An organisation with two owners, and their accounts. -/
def twoOwners : Tables :=
  { coOwned with
    user := ⟨[person (str "u2") (str "b@o1.io"), person (str "u1") (str "a@o1.io")], by decide⟩ }

/-- The member row of one of the two. -/
def ownRow (second : Bool) : MemberRow :=
  if second then ownerRow (str "m2") (str "u2") else ownerRow (str "m1") (str "u1")

/-- One of the two leaves. -/
def leaving (second : Bool) : Request :=
  { entry := handlerFor roughFormats (fun _ _ _ => .null) (str "membership") .delete
      membershipDelete
    ctx := { requestId := str "r1", orgId := str "o1", userId := (ownRow second).userId,
             role := .owner, plan := str "free", deadlineAt := 0 }
    payload := .object []
    ambient := idleAmbient }

/-- Both owners of the example ask to leave the organisation that they share. -/
theorem leaving_concerns (second : Bool) :
    (leaving second).Concerns roughFormats (fun _ _ _ => .null) (str "o1") := ⟨.inr rfl, rfl⟩

/-- What is left of a departure that has passed its guard. -/
def departing (second : Bool) : Storing Value := do
  let row ← removeMember (str "o1") (ownRow second).id
  let output ← removed row (serviceError .internal (str "You were not removed."))
  parseOutput (contractFor roughFormats (str "membership") .delete) output

theorem twoOwners_spare : HasSpareOwner twoOwners (str "o1") := by
  have hperm : (ownersOf (membersOf twoOwners (str "o1"))).length =
      (ownersOf ((twoOwners.member.select (ofOrganization (str "o1"))).flatMap
        (joinUser twoOwners.user))).length :=
    ((List.mergeSort_perm _ _).filter _).length_eq
  rw [HasSpareOwner, hperm]
  decide

/-- The first call of a departure finds the caller's own row, which is an owner's, and goes
on to the guard. -/
theorem leaving_reads (second : Bool) : (leaving second).program.advance none twoOwners =
    (assertNotTheLastOwner (str "o1") >>= fun _ => departing second, twoOwners) := by
  have hassoc := Program.bind_assoc (assertNotTheLastOwner (str "o1")) (fun _ => do
    let row ← removeMember (str "o1") (ownRow second).id
    removed row (serviceError .internal (str "You were not removed.")))
    (parseOutput (contractFor roughFormats (str "membership") .delete))
  rw [departing]
  refine Prod.ext (Eq.trans ?_ hassoc) rfl
  cases second <;> rfl

theorem leaving_guarded (second : Bool) :
    (assertNotTheLastOwner (str "o1") >>= fun _ => departing second : Storing Value).advance none
      twoOwners = (departing second, twoOwners) := by
  have hspare : ¬ (ownersOf (membersOf twoOwners (str "o1"))).length ≤ 1 :=
    not_le.mpr twoOwners_spare
  have hguard : ∀ {k : Unit → Storing Value} {error : ServiceError},
      (if (ownersOf (membersOf twoOwners (str "o1"))).length ≤ 1 then refuse error
        else pure () : Storing Unit) >>= k = k () := by
    intro k error
    rw [if_neg hspare]
    rfl
  rw [assertNotTheLastOwner, Program.bind_assoc]
  exact Prod.ext hguard rfl

/-- Turns in which no call fails. -/
def turnsOf (order : List Bool) : List (Turn Bool) := order.map fun second => ⟨second, none⟩

/-- Each finds its row, each counts two owners, each removes its row: nobody owns the organisation. -/
theorem both_owners_leave :
    (∀ second, (leaving second).Concerns roughFormats (fun _ _ _ => .null) (str "o1")) ∧
      HasOwner twoOwners (str "o1") ∧
      ¬ HasOwner ((arrived leaving twoOwners).after
        (turnsOf [true, false, true, false, true, false])).store (str "o1") := by
  refine ⟨leaving_concerns, by decide, ?_⟩
  simp only [turnsOf, List.map, Shared.after, Shared.take, arrived, Function.update_self,
    Function.update_of_ne, ne_eq, not_false_eq_true, reduceCtorEq, leaving_reads, leaving_guarded]
  decide

/-- One finds its row; the other leaves; then the first counts one owner, and stays. -/
def oneAfterAnother : List Bool := [true, false, false, false, true]

/-- The schedule is allowed: whenever a step of it takes an owner's row, another owner is
there. -/
theorem oneAfterAnother_allowed : Trace.Run
    ((arrived leaving twoOwners).Allowed (TakesSpare (str "o1"))) (turnsOf oneAfterAnother) := by
  refine .next (.next (.next (.next (.next .start ?_) ?_) ?_) ?_) ?_
  all_goals
    simp only [Shared.Allowed, List.map, Shared.after, Shared.take, arrived,
      Function.update_self, Function.update_of_ne, ne_eq, not_false_eq_true, reduceCtorEq,
      leaving_reads, leaving_guarded]
  · exact TakesSpare.refl _ _
  · exact TakesSpare.refl _ _
  · exact TakesSpare.refl _ _
  · exact fun _ _ _ _ => twoOwners_spare
  · exact TakesSpare.refl _ _

/-- So the other is left, as an owner is whenever one of them has every turn. -/
theorem other_owner_left :
    HasOwner ((arrived leaving twoOwners).after (turnsOf oneAfterAnother)).store (str "o1") ∧
      ∀ second turns, (∀ turn ∈ turns, turn.thread = second) →
        HasOwner ((arrived leaving twoOwners).after turns).store (str "o1") :=
  ⟨owner_kept_concurrently leaving_concerns (by decide) oneAfterAnother_allowed,
    fun second _ halone => owner_kept_concurrently leaving_concerns (by decide)
      (takesSpare_alone (leaving_concerns second) halone)⟩

end Demonstration

end Guardrail
