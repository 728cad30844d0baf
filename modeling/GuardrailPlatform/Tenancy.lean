import GuardrailPlatform.RoleProvenance
import GuardrailPlatform.TenantIsolation

/-!
# Who changes an organisation's rows

Between two moments of an installation's life an organisation's rows may differ.
Some one step made the difference, and that step has someone behind it: a
handler that runs for a member of the organisation, the party that founded it,
or an endpoint of Better Auth.  A message for one organisation never reaches the
rows of another, however the handlers interleave and wherever they fail, and a
reading handler reaches none.

A program carries the organisations it may change from its first statement to
its last (`Attributed`), so what holds of the turn that changes a row holds of
the message that began the program.
-/

namespace Guardrail

open Js
open Storage (Table)
open Storage.Program (Frames)
open IdentityService

/-! ## What a handler changes -/

/-- All but these organisations keep their rows. -/
def ChangesOnly (organizations : JSString → Prop) (before after : Tables) : Prop :=
  ∀ orgId, ¬ organizations orgId → Agree orgId before after

/-- A store that is left as it is has changed no organisation. -/
theorem ChangesOnly.refl (organizations : JSString → Prop) (tables : Tables) :
    ChangesOnly organizations tables tables :=
  fun orgId _ => Agree.refl orgId tables

/-- A change of some organisations' rows is a change of any larger choice of them. -/
theorem ChangesOnly.mono {organizations organizations' : JSString → Prop} {before after : Tables}
    (h : ChangesOnly organizations before after)
    (hle : ∀ orgId, organizations orgId → organizations' orgId) :
    ChangesOnly organizations' before after :=
  fun orgId hnot => h orgId fun hin => hnot (hle orgId hin)

/-- A program that keeps to one organisation changes that one at the most. -/
theorem KeepsOthers.changesOnly {organizations : JSString → Prop} {organizationId : JSString}
    {before after : Tables} (h : KeepsOthers organizationId before after)
    (hin : organizations organizationId) : ChangesOnly organizations before after := by
  intro other hother
  apply h other
  intro hsame
  exact hother (hsame.symm ▸ hin)

section Organizations

variable {organizationId : JSString}

/-- An organisation's new name or slug leaves the others as they are. -/
theorem updateOrganization_keepsOthers (name slug : Option JSString) :
    (updateOrganization organizationId name slug).Frames (KeepsOthers organizationId) := by
  refine updateOrganization_frames KeepsOthers.refl fun s organization hupdate other hother => ?_
  have hrows := Table.update_of_disjoint (q := isOrganization other) hupdate
    (fun _ hrow => beq_other hother hrow) fun _ => rfl
  exact { Agree.refl other s with organization := hrows.symm }

/-- Founding an organisation, with its first member, keeps the rows of every other. -/
theorem createOrganization_keepsOthers {row : OrganizationRow} {first : MemberRow}
    (hrow : row.id = organizationId) (hfirst : first.organizationId = organizationId) :
    (createOrganization row first).Frames (KeepsOthers organizationId) := by
  refine createOrganization_frames fun s organization member horganization hmember other hother => ?_
  have hnot : isOrganization other row = false := by
    rw [isOrganization, hrow]
    exact beq_false_of_ne hother.symm
  have hnot' : ofOrganization other first = false := by
    rw [ofOrganization, hfirst]
    exact beq_false_of_ne hother.symm
  exact { Agree.refl other s with
    organization := (Table.insert_of_disjoint horganization hnot).symm
    member := (Table.insert_of_disjoint hmember hnot').symm }

end Organizations

/-- The organisations a handler may write rows of: its caller's, and the one
that `organization.create` founds. -/
def writable (entry : HandlerEntry Handling) (ctx : ServiceContext) (ambient : Ambient)
    (organizationId : JSString) : Prop :=
  organizationId = ctx.orgId ∨
    entry.resource = str "organization" ∧ entry.operation = .create ∧ organizationId = ambient.uuid 0

/-- The organisations whose rows a handler may change: none, if it reads. -/
def changeable (entry : HandlerEntry Handling) (ctx : ServiceContext) (ambient : Ambient)
    (organizationId : JSString) : Prop :=
  entry.operation ≠ .read ∧ writable entry ctx ambient organizationId

section Execute

variable {formats : Formats} {flatten : ResourceKey → Operation → Value → Value}
  {entry : HandlerEntry Handling} {ctx : ServiceContext} {payload : Value} {ambient : Ambient}

/-- **Every handler of every service** changes rows of its caller's organisation
only, or of the one it founds. -/
theorem execute_changesOnly {name : ServiceName} (hentry : entry ∈ handlersOf formats flatten name) :
    (entry.execute ctx payload ambient).Frames (ChangesOnly (changeable entry ctx ambient)) := by
  have hrefl := ChangesOnly.refl (changeable entry ctx ambient)
  -- a writing handler of the caller's organisation
  have hown : ∀ operation, entry.operation = operation → operation ≠ .read →
      ∀ before after, KeepsOthers ctx.orgId before after →
        ChangesOnly (changeable entry ctx ambient) before after :=
    fun _ hsame hwrites _ _ hkeeps => hkeeps.changesOnly ⟨hsame ▸ hwrites, .inl rfl⟩
  cases name with
  | identity =>
      simp only [handlersOf, identityHandlers, List.mem_cons, List.not_mem_nil, or_false] at hentry
      rcases hentry with rfl | rfl | rfl | rfl | rfl | rfl | rfl | rfl | rfl | rfl | rfl
      · exact handlerFor_frames fun _ _ => memberRead_frames hrefl
      · exact handlerFor_frames fun _ _ => memberCreate_frames hrefl
          ((createInvitation_keepsOthers fun _ h => (key_of_requested h).1).mono
            (hown .create rfl (by decide)))
      · exact handlerFor_frames fun _ _ =>
          memberDelete_frames ((removeMember_keepsOthers _).mono (hown .delete rfl (by decide)))
      · exact handlerFor_frames fun _ _ => invitationRead_frames hrefl
      · exact handlerFor_frames fun _ _ =>
          invitationDelete_frames ((revokeInvitation_keepsOthers _).mono (hown .delete rfl (by decide)))
      · exact handlerFor_frames fun _ _ =>
          memberUpdate_frames hrefl ((setMemberRole_keepsOthers _ _).mono (hown .update rfl (by decide)))
      · exact handlerFor_frames fun _ _ => organizationRead_frames hrefl
      · refine handlerFor_frames fun _ _ => organizationCreate_frames hrefl ?_
        refine Frames.mono (createOrganization_keepsOthers rfl rfl) ?_
        intro _ _ hkeeps
        have hwrites : Operation.create ≠ .read := by decide
        exact hkeeps.changesOnly ⟨hwrites, .inr ⟨rfl, rfl, rfl⟩⟩
      · exact handlerFor_frames fun _ _ => organizationUpdate_frames hrefl
          ((updateOrganization_keepsOthers _ _).mono (hown .update rfl (by decide)))
      · exact handlerFor_frames fun _ _ =>
          organizationDelete_frames (deleteOrganization_keepsOthers.mono (hown .delete rfl (by decide)))
      · exact handlerFor_frames fun _ _ => membershipDelete_frames hrefl fun _ =>
          (removeMember_keepsOthers _).mono (hown .delete rfl (by decide))
  | projects =>
      simp only [handlersOf, projectHandlers, List.mem_cons, List.not_mem_nil, or_false] at hentry
      rcases hentry with rfl | rfl | rfl | rfl
      · exact handlerFor_frames fun _ _ => projectRead_frames hrefl _
      · exact handlerFor_frames fun _ _ =>
          projectCreate_frames hrefl ((create_keepsOthers rfl).mono (hown .create rfl (by decide)))
      · exact handlerFor_frames fun _ _ =>
          projectUpdate_frames ((update_keepsOthers _ _ _).mono (hown .update rfl (by decide)))
      · exact handlerFor_frames fun _ _ =>
          projectDelete_frames ((remove_keepsOthers _).mono (hown .delete rfl (by decide)))
  | billing => exact billing_frames hentry
  | audit =>
      simp only [handlersOf, auditHandlers, List.mem_cons, List.not_mem_nil, or_false] at hentry
      obtain rfl := hentry
      exact handlerFor_frames fun _ _ => auditLogRead_frames hrefl

end Execute

/-! ## Who is behind a change -/

namespace Installation

variable (D : Installation)

/-- A member's call: the gateway identified the caller by a member row, signed what
they are told for them, and the role the row gave is one the operation is open to. -/
def MemberCalls (history : List Happening) (entry : HandlerEntry Handling) (m : RequestMeta) :
    Prop :=
  ∃ moment identity, D.CalledBy history moment identity m ∧
    (∃ row ∈ (D.tables moment).member.rows, row.userId = m.userId ∧
      row.organizationId = m.orgId ∧ normalizeRole row.role = m.role) ∧
    ∃ rule, registry.ruleFor entry.resource entry.operation = some rule ∧
      roleAtLeast m.role rule.minRole = true

/-- A program that may change an organisation's rows, and who began it. -/
inductive Accountable (history : List Happening) (orgId : JSString) : Thread → Prop
  /-- The hook of the signup that founds it. -/
  | signup {n : ℕ} {created : CreatedUser} {ambient : Ambient}
      (h : .signedUp n created ambient ∈ history) (hid : ambient.uuid 0 = orgId) :
      Accountable history orgId (.signup n)
  /-- A writing handler, for a member of it or of the organisation that founds it. -/
  | handling {d : Delivery} {before : List Happening} {b : Binding Handling} {m : RequestMeta}
      {payload : Value} (h : .onBus (.delivered d) :: before <:+ history)
      (hscreen : D.platform.screen d = .admitted b m payload)
      (hchanges : changeable b.entry (contextOf m) (D.ambient d.handling) orgId)
      (hcalled : D.MemberCalls before b.entry m) : Accountable history orgId (.handling d.handling)

/-- Every program changes the rows of those it is accountable for, and no others. -/
def Attributed (history : List Happening) : Prop :=
  ∀ thread, ((D.world history).threads thread).Frames
    (ChangesOnly fun orgId => D.Accountable history orgId thread)

variable {D} {history later : List Happening} {orgId : JSString}

/-- Whom a thread is accountable to does not change as the history grows. -/
theorem Accountable.mono {thread : Thread} (h : D.Accountable history orgId thread)
    (hle : history <:+ later) : D.Accountable later orgId thread := by
  cases h with
  | signup hmem hid => exact .signup (hle.subset hmem) hid
  | handling hdelivered hscreen hchanges hcalled =>
      exact .handling (List.IsSuffix.trans hdelivered hle) hscreen hchanges hcalled

/-! ### What a program may change -/

/-- The hook inserts rows of the organisation it founds, and changes no other. -/
theorem signup_changesOnly {n : ℕ} {created : CreatedUser} {ambient : Ambient}
    (h : .signedUp n created ambient ∈ history) : (D.signup created ambient).Frames
      (ChangesOnly fun orgId => D.Accountable history orgId (.signup n)) := by
  have hfounds : D.Accountable history (ambient.uuid 0) (.signup n) := .signup h rfl
  have hown : ∀ before after, KeepsOthers (ambient.uuid 0) before after →
      ChangesOnly (fun orgId => D.Accountable history orgId (.signup n)) before after :=
    fun _ _ hkeeps => hkeeps.changesOnly hfounds
  unfold signup SignupHook.after
  refine .bind (.bind (.perform ?_) fun _ => .perform ?_) fun _ => trivial
  · intro s b t hstatement
    obtain ⟨organization, hinsert, hresult⟩ := Option.map_eq_some_iff.mp hstatement
    obtain ⟨-, rfl⟩ := Prod.mk.inj hresult
    refine hown _ _ fun other hother => ?_
    have hnot : isOrganization other (SignupHook.workspace D.toLowerCase created ambient) = false :=
      beq_false_of_ne hother.symm
    exact { Agree.refl other s with
      organization := (Table.insert_of_disjoint hinsert hnot).symm }
  · intro s b t hstatement
    obtain ⟨member, hinsert, hresult⟩ := Option.map_eq_some_iff.mp hstatement
    obtain ⟨-, rfl⟩ := Prod.mk.inj hresult
    refine hown _ _ fun other hother => ?_
    have hnot : ofOrganization other (SignupHook.firstMember created ambient) = false :=
      beq_false_of_ne hother.symm
    exact { Agree.refl other s with member := (Table.insert_of_disjoint hinsert hnot).symm }

/-- A handler changes rows of its caller's organisation only, and a member of it made the
call. -/
theorem handling_changesOnly (hrun : D.Run history) {d : Delivery}
    (hunforged : D.platform.Unforged (busOf history) d.raw) :
    (D.handling d).Frames (ChangesOnly fun orgId =>
      D.Accountable (.onBus (.delivered d) :: history) orgId (.handling d.handling)) := by
  unfold handling
  cases hscreen : D.platform.screen d with
  | refused route error => trivial
  | admitted b m payload =>
      obtain ⟨r, hpassed⟩ := passed_of_screen hscreen
      have hentry : b.entry ∈ handlersOf D.formats D.flatten d.service :=
        entry_of_defineService (D.booted d.service) b hpassed.bound.1
      refine (execute_changesOnly hentry).mono ?_
      intro before after hchanges
      refine hchanges.mono ?_
      intro orgId hchangeable
      refine .handling (List.suffix_refl _) hscreen hchangeable ?_
      rcases caller_of_screen hrun hunforged hscreen with
        ⟨moment, identity, hcalled, hrule⟩ | hsystem
      · exact ⟨moment, identity, hcalled, hcalled.exists_row, hrule⟩
      · exact absurd hsystem.entry.2 hchangeable.1

/-! ### Every step, and every run -/

/-- In every run each change is attributed to a happening, by induction on the
run. -/
theorem attributed (hrun : D.Run history) : D.Attributed history := by
  let frame : List Happening → Thread → Tables → Tables → Prop := fun history thread =>
    ChangesOnly fun orgId => D.Accountable history orgId thread
  have hmono : ∀ {history later thread before after}, history <:+ later →
      frame history thread before after → frame later thread before after :=
    fun hle hchanges => ChangesOnly.mono hchanges fun _ haccountable => haccountable.mono hle
  exact @threads_frame D frame (fun _ _ => ChangesOnly.refl _) hmono signup_changesOnly
    (fun hrun hunforged => handling_changesOnly hrun hunforged) history hrun

/-- A turn changes the rows of the organisations that its program is accountable for, and no
others. -/
theorem Attributed.advance (h : D.Attributed history) (turn : Storage.Turn Thread) :
    ChangesOnly (fun orgId => D.Accountable history orgId turn.thread) (D.tables history)
      (D.tables (.turn turn :: history)) :=
  ((h turn.thread).advance (ChangesOnly.refl _) turn.fault (D.world history).store).1

/-- What neither makes a turn nor writes for Better Auth leaves the tables. -/
theorem tables_cons_of_other {happening : Happening} (hturn : ∀ turn, happening ≠ .turn turn)
    (hauth : ∀ tables, happening ≠ .authWrote tables) :
    D.tables (happening :: history) = D.tables history := by
  cases happening with
  | onBus event => cases event <;> rfl
  | identified call session => rfl
  | signedUp n created ambient => rfl
  | turn turn => exact absurd rfl (hturn turn)
  | authWrote tables => exact absurd rfl (hauth tables)

/-- **Who changes an organisation's rows.**  Between any two moments of any run
the rows of an organisation differ only where, in between, an endpoint of Better
Auth wrote, or a program made a turn that is accountable for that organisation:
the hook of the signup that founds it, or a writing handler that was delivered a
message the gateway had signed for a caller it had identified by a member row, of
that organisation or, where the handler founds it, of another. -/
theorem changes_accounted (D : Installation) (later earlier : List Happening)
    (hrun : D.Run (later ++ earlier)) (orgId : JSString)
    (hchanged : ¬ Agree orgId (D.tables earlier) (D.tables (later ++ earlier))) :
    ∃ happening middle, happening :: middle <:+ later ++ earlier ∧ earlier <:+ middle ∧
      ((∃ tables, happening = .authWrote tables) ∨
        ∃ turn, happening = .turn turn ∧ D.Accountable middle orgId turn.thread) := by
  induction later with
  | nil => exact absurd (Agree.refl orgId _) hchanged
  | cons happening later ih =>
      obtain ⟨hbefore, -⟩ := @Trace.Run.allowed _ _ [] _ _ hrun
      have hlast : happening :: (later ++ earlier) <:+ happening :: later ++ earlier :=
        List.suffix_refl _
      have hearlier : earlier <:+ later ++ earlier := List.suffix_append _ _
      by_cases hsame : Agree orgId (D.tables earlier) (D.tables (later ++ earlier))
      · -- the last step makes the difference
        by_cases hturn : ∃ turn, happening = .turn turn
        · obtain ⟨turn, rfl⟩ := hturn
          refine ⟨_, _, hlast, hearlier, .inr ⟨turn, rfl, ?_⟩⟩
          by_contra hnot
          exact hchanged (hsame.trans ((attributed hbefore).advance turn orgId hnot))
        · by_cases hauth : ∃ tables, happening = .authWrote tables
          · exact ⟨_, _, hlast, hearlier, .inl hauth⟩
          · apply absurd hsame
            intro hsame
            apply hchanged
            rw [List.cons_append, tables_cons_of_other (fun turn h => hturn ⟨turn, h⟩)
              fun tables h => hauth ⟨tables, h⟩]
            exact hsame
      · obtain ⟨found, middle, hsuffix, hmiddle, hfound⟩ := ih hbefore hsame
        exact ⟨found, middle, List.IsSuffix.trans hsuffix (List.suffix_cons _ _), hmiddle, hfound⟩

/-- The founder's first row is accounted for, in a run that has just begun. -/
theorem founding_accounted : ∃ (D : Installation) (history : List Happening), D.Run history ∧
    ¬ Agree (str "0") (D.tables []) (D.tables (history ++ [])) ∧
    ∃ happening middle, happening :: middle <:+ history ++ [] ∧ [] <:+ middle ∧
      ((∃ tables, happening = .authWrote tables) ∨
        ∃ turn, happening = .turn turn ∧ D.Accountable middle (str "0") turn.thread) := by
  obtain ⟨D, history, e, d, b, -, hrun, -, hmembers, -⟩ := founder_run
  have hrun' : D.Run (history ++ []) := by
    rw [List.append_nil]
    exact hrun
  have hchanged : ¬ Agree (str "0") (D.tables []) (D.tables (history ++ [])) := by
    intro hagree
    have hmember := hagree.member
    have hnone : (D.tables []).member = default := rfl
    rw [List.append_nil, Table.select, Table.select, hmembers, hnone] at hmember
    revert hmember
    decide
  exact ⟨D, history, hrun, hchanged, changes_accounted D history [] hrun' (str "0") hchanged⟩

end Installation

end Guardrail
