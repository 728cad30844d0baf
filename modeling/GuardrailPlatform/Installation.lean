import GuardrailPlatform.HandlerFrames
import GuardrailPlatform.Interleaving
import GuardrailPlatform.RequestAuthenticity
import GuardrailPlatform.WorkspaceCreation

/-!
# The platform installed

The bus, the services' handlers and the gateway's sessions in one system.  The
member table that the identity service writes is the one the gateway reads: a
caller's role is what a member row says when the gateway identifies them, it is
signed into the envelope, and a handler may act on it much later, statement by
statement, while other handlers run and the table changes under all of them.

Beside the services two more parties write the tables.  The auth instance runs
a hook after each signup.  And Better Auth's own endpoints, where they are still
mounted, accept and answer invitations: a member they add has the organisation
and the role of an invitation that was stored.
-/

namespace Guardrail

open Js
open Storage (Shared Turn)
open Storage.Program (crash)

/-! ## Identities -/

/-- What the gateway reads of `auth.api.getSession`. -/
structure Session where
  userId : JSString
  activeOrganizationId : Option JSString

/-- `where user_id = ... and organization_id = ...`. -/
def isMembership (userId orgId : JSString) (row : MemberRow) : Bool :=
  row.userId == userId && row.organizationId == orgId

/-- `identify`, of the session its headers stand for. -/
def identify (session : Option Session) (tables : Tables) : Option GatewayIdentity :=
  match session with
  | none => none
  | some session =>
    match session.activeOrganizationId with
    | none => none
    | some orgId =>
      -- an empty organisation is none
      if orgId.length = 0 then none
      else
        match (tables.member.select (isMembership session.userId orgId)).head? with
        | none => none
        | some row => some { userId := session.userId, orgId, role := normalizeRole row.role }

/-- Whoever is identified has a member row of the identity's role, in the organisation that
the session names. -/
theorem identify_eq_some {session : Option Session} {tables : Tables} {identity : GatewayIdentity}
    (h : identify session tables = some identity) :
    ∃ row ∈ tables.member.rows, row.userId = identity.userId ∧
      row.organizationId = identity.orgId ∧ normalizeRole row.role = identity.role := by
  cases session with
  | none => cases h
  | some session =>
      unfold identify at h
      dsimp only at h
      split at h
      · cases h
      · split at h
        · cases h
        · split at h
          · cases h
          · rename_i row hrow
            obtain rfl := Option.some.inj h
            obtain ⟨hmem, hmatch⟩ := Storage.Table.mem_of_head?_select hrow
            obtain ⟨huser, horg⟩ := Bool.and_eq_true_iff.mp hmatch
            exact ⟨row, hmem, beq_iff_eq.mp huser, beq_iff_eq.mp horg, rfl⟩

/-! ## The installation -/

/-- What is installed: the secret all parties share, and the services booted with
their handlers. -/
structure Installation where
  crypto : Crypto
  secret : JSString
  formats : Formats
  flatten : ResourceKey → Operation → Value → Value
  toLowerCase : JSString → JSString
  service : ServiceName → ServiceRuntime registry Handling
  booted : ∀ name, defineService registry name (handlersOf formats flatten name) = .ok (service name)
  /-- What a handling draws from its process. -/
  ambient : ℕ → Ambient

/-- Programs that share the tables. -/
inductive Thread
  | handling (n : ℕ)
  | signup (n : ℕ)
deriving DecidableEq

/-- What happens in an installation. -/
inductive Happening
  /-- On the bus: what the honest parties sign, receive and answer. -/
  | onBus (event : BusEvent)
  /-- The gateway identifies the caller of a call. -/
  | identified (call : ℕ) (session : Option Session)
  /-- A user signs up, and the hook begins. -/
  | signedUp (n : ℕ) (created : CreatedUser) (ambient : Ambient)
  /-- A program makes its next call. -/
  | turn (turn : Turn Thread)
  /-- An endpoint of Better Auth leaves the tables so. -/
  | authWrote (tables : Tables)

namespace Installation

variable (D : Installation)

/-- The parties on the bus. -/
def platform : Platform Handling where
  crypto := D.crypto
  secret := D.secret
  reg := registry
  contracts := contractFor D.formats
  service := D.service
  booted name := ⟨_, D.booted name⟩

/-- What a delivered message starts: the handler, if it is admitted. -/
def handling (d : Delivery) : Storing Value :=
  match D.platform.screen d with
  | .refused .. => crash
  | .admitted b m payload => b.entry.execute (contextOf m) payload (D.ambient d.handling)

/-- The hook of a signup. -/
def signup (created : CreatedUser) (ambient : Ambient) : Storing Value := do
  SignupHook.after D.toLowerCase created ambient
  pure .null

abbrev World := Shared Thread Tables ServiceError Value

/-- A world in which a program is about to begin. -/
def begin (world : World) (thread : Thread) (program : Storing Value) : World :=
  { world with threads := Function.update world.threads thread program }

/-- The tables and what is left of each program, after a history. -/
def world : List Happening → World
  | [] => { store := default, threads := fun _ => crash }
  | .onBus (.delivered d) :: earlier => begin (world earlier) (.handling d.handling) (D.handling d)
  | .signedUp n created ambient :: earlier =>
    begin (world earlier) (.signup n) (D.signup created ambient)
  | .turn turn :: earlier => (world earlier).take turn
  | .authWrote tables :: earlier => { world earlier with store := tables }
  | _ :: earlier => world earlier

/-- The tables after a history. -/
def tables (history : List Happening) : Tables := (D.world history).store

/-- The part of a history that the bus sees. -/
def busOf (history : List Happening) : List BusEvent :=
  history.filterMap fun
    | .onBus event => some event
    | _ => none

/-- What stands behind an envelope the gateway signs: a call whose caller it
identified at some moment, or its own question about an organisation's plan. -/
def Backed (history : List Happening) (call : ℕ) (e : Envelope) : Prop :=
  (∃ session earlier args deps, .identified call session :: earlier <:+ history ∧
    deps.identity = identify session (D.tables earlier) ∧
    prepare D.crypto D.secret registry (contractFor D.formats) args deps = .ok e) ∨
  ∃ orgId requestId issuedAt, signedEnvelopeFor D.crypto D.secret registry orgId (str "billing")
    .read requestId issuedAt = some e

/-- An invitation that was once stored. -/
def Stored (history : List Happening) (invitation : InvitationRow) : Prop :=
  ∃ earlier, earlier <:+ history ∧ invitation ∈ (D.tables earlier).invitation.rows

/-- What Better Auth's endpoints may leave, those that are still mounted: members
they found or made of a stored invitation, and invitations they found, answered
or not. -/
structure AuthWrites (history : List Happening) (after : Tables) : Prop where
  members : ∀ row ∈ after.member.rows, row ∈ (D.tables history).member.rows ∨
    ∃ invitation, D.Stored history invitation ∧
      invitation.organizationId = row.organizationId ∧ invitation.role = some row.role
  invitations : ∀ row ∈ after.invitation.rows, ∃ old ∈ (D.tables history).invitation.rows,
    old.organizationId = row.organizationId ∧ old.email = row.email ∧ old.role = row.role
  organizations : after.organization = (D.tables history).organization
  /-- The auth instance has no such tables. -/
  others : after.project = (D.tables history).project ∧
    after.auditLog = (D.tables history).auditLog

/-- What may happen after a history. -/
def Allowed (history : List Happening) : Happening → Prop
  | .onBus event => D.platform.Allowed (busOf history) event ∧
      ∀ call e, event = .signed call e → D.Backed history call e
  | .identified _ _ => True
  | .signedUp n _ _ => ∀ created ambient, .signedUp n created ambient ∉ history
  | .turn _ => True
  | .authWrote after => D.AuthWrites history after

/-- A run of the installation. -/
def Run (history : List Happening) : Prop := Trace.Run D.Allowed history

variable {D}

/-- A program that begins stands at its beginning, whatever its thread ran before. -/
theorem begin_threads_self (world : World) (thread : Thread) (program : Storing Value) :
    (begin world thread program).threads thread = program := Function.update_self _ _ _

/-- A program that begins on one thread leaves all the other threads where they are. -/
theorem begin_threads_of_ne (world : World) {thread other : Thread} (program : Storing Value)
    (h : other ≠ thread) : (begin world thread program).threads other = world.threads other :=
  Function.update_of_ne h _ _

/-- What happened on the bus is what the history says of the bus. -/
theorem mem_busOf {event : BusEvent} {history : List Happening} :
    event ∈ busOf history ↔ .onBus event ∈ history := by
  unfold busOf
  rw [List.mem_filterMap]
  constructor
  · intro h
    obtain ⟨happening, hmem, hsome⟩ := h
    cases happening with
    | onBus event' =>
        obtain rfl := Option.some.inj hsome
        exact hmem
    | identified => cases hsome
    | signedUp => cases hsome
    | turn => cases hsome
    | authWrote => cases hsome
  · intro h
    exact ⟨_, h, rfl⟩

/-- **The bus of an installation** is a run of the platform: what is proved of the
protocol is proved of it. -/
theorem busOf_run {history : List Happening} (h : D.Run history) :
    D.platform.Run (busOf history) := by
  induction h with
  | start => exact .start
  | @next history happening _ hallowed hbus =>
      cases happening with
      | onBus event => exact .next hbus hallowed.1
      | identified => exact hbus
      | signedUp => exact hbus
      | turn => exact hbus
      | authWrote => exact hbus

/-- **What programs may do.**  A relation that only grows with the history, and that a
program's statements keep when it begins, its statements keep wherever it stands. -/
theorem threads_frame {frame : List Happening → Thread → Tables → Tables → Prop}
    (hrefl : ∀ history thread tables, frame history thread tables tables)
    (hmono : ∀ {history later thread before after}, history <:+ later →
      frame history thread before after → frame later thread before after)
    (hsignup : ∀ {history n created ambient}, .signedUp n created ambient ∈ history →
      (D.signup created ambient).Frames (frame history (.signup n)))
    (hhandling : ∀ {history d}, D.Run history → D.platform.Unforged (busOf history) d.raw →
      (D.handling d).Frames (frame (.onBus (.delivered d) :: history) (.handling d.handling)))
    {history : List Happening} (hrun : D.Run history) (thread : Thread) :
    ((D.world history).threads thread).Frames (frame history thread) := by
  induction hrun generalizing thread with
  | start => trivial
  | @next history happening hrun hallowed h =>
      have hle : history <:+ happening :: history := List.suffix_cons _ _
      have hkept : ∀ thread, ((D.world history).threads thread).Frames
          (frame (happening :: history) thread) :=
        fun thread => (h thread).mono fun _ _ hframe => hmono hle hframe
      have hbegin : ∀ begun program, program.Frames (frame (happening :: history) begun) →
          ∀ thread, ((begin (D.world history) begun program).threads thread).Frames
            (frame (happening :: history) thread) := by
        intro begun program hprogram thread
        by_cases hthread : thread = begun
        · rw [hthread, begin_threads_self]
          exact hprogram
        · rw [begin_threads_of_ne _ _ hthread]
          exact hkept thread
      cases happening with
      | onBus event =>
          cases event with
          | delivered d => exact hbegin _ _ (hhandling hrun hallowed.1.1) thread
          | signed call e => exact hkept thread
          | settled d execution published => exact hkept thread
          | consumed raw subject => exact hkept thread
          | answered call response => exact hkept thread
      | identified call session => exact hkept thread
      | signedUp n created ambient => exact hbegin _ _ (hsignup List.mem_cons_self) thread
      | turn turn =>
          by_cases hthread : thread = turn.thread
          · rw [hthread]
            show (((D.world history).take turn).threads turn.thread).Frames _
            rw [Storage.Shared.take_threads_self]
            exact ((hkept turn.thread).advance (hrefl _ _) turn.fault (D.world history).store).2
          · show (((D.world history).take turn).threads thread).Frames _
            rw [Storage.Shared.take_threads_of_ne _ hthread]
            exact hkept thread
      | authWrote after => exact hkept thread

end Installation

end Guardrail
