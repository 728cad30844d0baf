import GuardrailPlatform.CheckThenAct
import GuardrailPlatform.ConcurrentOwners
import GuardrailPlatform.Invitations

/-!
# An invitation delivered again

The stream delivers a command at least once, and `member.create` is to insert
one invitation for however many deliveries.  It remembers no command: a delivery
looks for a pending invitation of the address, and inserts one in a second call
if it finds none.

So a delivery inserts again where the first one's invitation has been revoked
or taken by the time it looks, and where it looks before the other has
inserted.
-/

namespace Guardrail

open Js
open Storage (Shared Table Turn)
open IdentityService

section Deliveries

variable {formats : Formats} {flatten : ResourceKey → Operation → Value → Value}
  {ctx : ServiceContext} {payload : Value}

/-- Is an invitation pending for the address the command names? -/
def AddressInvited (formats : Formats) (ctx : ServiceContext) (payload : Value) (tables : Tables) :
    Prop :=
  ∀ input, (contractFor formats (str "member") .create).input payload = some input →
    invited ctx tables (input.text (str "email")) = true

def invitationCount (tables : Tables) : ℕ := tables.invitation.rows.length

/-! ## One delivery -/

/-- After a check that found none, one insert is left at most. -/
theorem actsOnce_createInvitation (row : Option InvitationRow) {k : Option InvitationRow → Storing Value}
    (hk : ∀ created, (k created).Ended) :
    (createInvitation row >>= k).ActsOnce invitationCount := by
  cases row with
  | none => trivial
  | some row =>
      refine ⟨fun tables created after hstatement => ?_, hk⟩
      obtain ⟨invitation, hinsert, hresult⟩ := Option.map_eq_some_iff.mp hstatement
      obtain ⟨-, rfl⟩ := Prod.mk.inj hresult
      rw [invitationCount, invitationCount, (Table.insert_eq_some.mp hinsert).2, List.length_cons]

/-- A delivery looks for a pending invitation, and inserts one at most. -/
theorem executeMemberCreate_looksFirst (ambient : Ambient) :
    (executeMemberCreate formats flatten ctx payload ambient).LooksFirst
      (AddressInvited formats ctx payload) invitationCount := by
  cases hinput : (contractFor formats (str "member") .create).input payload with
  | none =>
      obtain ⟨error, hrefused⟩ := @handlerFor_rejects formats flatten (str "member") .create
        memberCreate ctx payload ambient hinput
      rw [executeMemberCreate, hrefused]
      trivial
  | some input =>
      rw [executeMemberCreate_eq hinput]
      intro tables existing after hstatement
      obtain ⟨rfl, rfl⟩ := Prod.mk.inj (Option.some.inj hstatement)
      refine ⟨rfl, ?_, ?_⟩
      · intro hinvited
        show (afterCheck formats ctx input ambient _).Ended
        rw [afterCheck_of_invited (hinvited input hinput)]
        trivial
      · show (afterCheck formats ctx input ambient _).ActsOnce invitationCount
        cases hinvited : invited ctx tables (input.text (str "email")) with
        | true =>
            rw [afterCheck_of_invited hinvited]
            trivial
        | false =>
            rw [afterCheck_of_uninvited hinvited]
            refine actsOnce_createInvitation _ fun created => ?_
            cases created <;> trivial

/-! ## Any number of deliveries -/

variable {ι : Type} [DecidableEq ι] {start : Shared ι Tables ServiceError Value}
  {delivers : ι → Prop} [DecidablePred delivers]

/-- **A command delivered again.**  However the deliveries of one `member.create`
are interleaved with one another and with whatever else runs against the store,
they insert one invitation at most, if none of them finds no invitation of the
address pending where another has inserted one already or is about to. -/
theorem redelivery_inserts_once {turns : List (Turn ι)}
    (hdeliveries : ∀ i, delivers i → ∃ ambient,
      start.threads i = executeMemberCreate formats flatten ctx payload ambient)
    (hrun : Trace.Run (start.LooksInTime (AddressInvited formats ctx payload) invitationCount
      delivers) turns) :
    start.gained invitationCount delivers turns ≤ 1 := by
  refine Shared.gained_le_one (fun i hi => ?_) hrun
  obtain ⟨ambient, hthread⟩ := hdeliveries i hi
  rw [hthread]
  exact executeMemberCreate_looksFirst ambient

end Deliveries

/-! ## Delivered twice -/

section Demonstration

/-- Two deliveries of one command, and somebody who revokes what the first inserted. -/
inductive Party
  | first
  | second
  | revoker
deriving DecidableEq

def Party.delivers (party : Party) : Prop := party ≠ .revoker

instance : DecidablePred Party.delivers := fun _ => inferInstanceAs (Decidable (_ ≠ _))

/-- The second delivery is handled by another process, which draws other ids. -/
def Party.request : Party → Request
  | .first =>
    { entry := handlerFor roughFormats (fun _ _ _ => .null) (str "member") .create memberCreate
      ctx := invitingOwner, payload := inviteAgain, ambient := idleAmbient }
  | .second =>
    { entry := handlerFor roughFormats (fun _ _ _ => .null) (str "member") .create memberCreate
      ctx := invitingOwner, payload := inviteAgain
      ambient := { idleAmbient with uuid := fun n => digitText (n + 1) } }
  | .revoker =>
    { entry := handlerFor roughFormats (fun _ _ _ => .null) (str "invitation") .delete
        invitationDelete
      ctx := invitingOwner, payload := .object [(str "id", .string (digitText 0))]
      ambient := idleAmbient }

def delivered : Shared Party Tables ServiceError Value := arrived Party.request default

/-- The turns, oldest first, with no call failing. -/
def turnsTaken (parties : List Party) : List (Turn Party) :=
  parties.reverse.map fun party => ⟨party, none⟩

/-- The second delivery inserts again: the first one's invitation was revoked
in between, or had not been inserted when the second looked. -/
theorem delivered_twice_inserts_twice :
    (contractFor roughFormats (str "member") .create).input inviteAgain = some inviteAgain ∧
      delivered.gained invitationCount Party.delivers
        (turnsTaken [.first, .first, .revoker, .second, .second]) = 2 ∧
      delivered.gained invitationCount Party.delivers
        (turnsTaken [.first, .second, .first, .second]) = 2 ∧
      invitationCount (delivered.after (turnsTaken [.first, .second, .first, .second])).store = 2 := by
  refine ⟨rfl, ?_, ?_, ?_⟩
  · decide
  · decide
  · decide

/-- Delivered again once the first delivery is through, the command inserts nothing. -/
theorem delivered_again_inserts_once :
    Trace.Run (delivered.LooksInTime (AddressInvited roughFormats invitingOwner inviteAgain)
        invitationCount Party.delivers) (turnsTaken [.first, .first, .second]) ∧
      delivered.gained invitationCount Party.delivers (turnsTaken [.first, .first, .second]) ≤ 1 := by
  have hdeliveries : ∀ party, Party.delivers party → ∃ ambient, delivered.threads party =
      executeMemberCreate roughFormats (fun _ _ _ => .null) invitingOwner inviteAgain ambient := by
    intro party hdelivers
    cases party with
    | first => exact ⟨_, rfl⟩
    | second => exact ⟨_, rfl⟩
    | revoker => exact (hdelivers rfl).elim
  have hrun : Trace.Run (delivered.LooksInTime (AddressInvited roughFormats invitingOwner inviteAgain)
      invitationCount Party.delivers) (turnsTaken [.first, .first, .second]) := by
    refine .next (.next (.next .start ?_) ?_) ?_
    · intro _ _ _ _
      refine ⟨rfl, fun party _ hway => ?_⟩
      obtain ⟨turn, hturn, -⟩ := hway.1
      cases hturn
    · intro _ hbegun
      exact (hbegun ⟨_, List.mem_cons_self, rfl⟩).elim
    · intro _ _ _ hvain
      refine (hvain fun input hinput => ?_).elim
      obtain rfl := Option.some.inj hinput
      decide
  exact ⟨hrun, redelivery_inserts_once hdeliveries hrun⟩

end Demonstration

end Guardrail
