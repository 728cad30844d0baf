import GuardrailPlatform.Refusals
import GuardrailPlatform.SchemaCodec

/-!
# Updating an organisation

`organization.update` sets the name, the slug or both.  Whether the slug is free
is asked of all organisations, the one that is updated among them: its own slug
counts as taken.  An update that names no slug can be repeated at will, and one
that has set a slug is refused the second time.
-/

namespace Guardrail

open Js
open Storage (Faults Outcome Table)
open Storage.Program (bind_assoc refuse run_query_bind run_perform_bind)
open IdentityService

/-- `organization.update`, handled. -/
def executeOrganizationUpdate (formats : Formats)
    (flatten : ResourceKey → Operation → Value → Value) (ctx : ServiceContext) (payload : Value)
    (ambient : Ambient) : Storing Value :=
  (handlerFor formats flatten (str "organization") .update organizationUpdate).execute ctx payload
    ambient

/-- No call fails from outside. -/
def noFaults : Faults := fun _ => none

/-- The members of the caller's organisation. -/
def seatsOf (ctx : ServiceContext) (tables : Tables) : ℕ :=
  (tables.member.select (ofOrganization ctx.orgId)).length

/-! ## What an update is to do -/

section Law

variable (formats : Formats) (flatten : ResourceKey → Operation → Value → Value)
  (ctx : ServiceContext) (payload input : Value) (ambient : Ambient) (tables : Tables)

def UpdateSucceeds : Prop :=
  ∃ data, ((executeOrganizationUpdate formats flatten ctx payload ambient).run noFaults tables).1 =
    .returned data

/-- The tables an undisturbed update leaves. -/
def updatedTables : Tables :=
  ((executeOrganizationUpdate formats flatten ctx payload ambient).run noFaults tables).2

/-- An update succeeds exactly where its slug is free for the organisation,
changes what it is given and nothing else, and can be repeated. -/
structure UpdateLaw : Prop where
  succeeds : UpdateSucceeds formats flatten ctx payload ambient tables ↔
    ∀ slug, input.text? (str "slug") = some slug →
      ∀ row ∈ tables.organization.rows, row.id ≠ ctx.orgId → row.slug ≠ slug
  others : UpdateSucceeds formats flatten ctx payload ambient tables →
    updatedTables formats flatten ctx payload ambient tables =
      { tables with
        organization := (updatedTables formats flatten ctx payload ambient tables).organization }
  fields : UpdateSucceeds formats flatten ctx payload ambient tables →
    (updatedTables formats flatten ctx payload ambient tables).organization.rows =
      tables.organization.rows.map fun row =>
        if row.id = ctx.orgId then
          { row with
            name := (input.text? (str "name")).getD row.name
            slug := (input.text? (str "slug")).getD row.slug }
        else row
  again : UpdateSucceeds formats flatten ctx payload ambient tables →
    UpdateSucceeds formats flatten ctx payload ambient
        (updatedTables formats flatten ctx payload ambient tables) ∧
      updatedTables formats flatten ctx payload ambient
          (updatedTables formats flatten ctx payload ambient tables) =
        updatedTables formats flatten ctx payload ambient tables

/-- No slug is given, and the members can be counted in the answer; or the slug
is another organisation's. -/
def UpdatesLawfully : Prop :=
  match input.text? (str "slug") with
  | none => (seatsOf ctx tables : ℤ) ≤ maxSafeInteger
  | some slug => ∃ row ∈ tables.organization.rows, row.id ≠ ctx.orgId ∧ row.slug = slug

end Law

/-! ## The input -/

/-- Where every field is an optional string, a member that is there and not undefined is a
string. -/
theorem isSome_text_of_given {fields : List (JSString × Schema)}
    {members out : List (JSString × Value)} (hout : parseFields fields members = some out)
    (hfields : ∀ field ∈ fields, ∃ check, field.2 = .optional (.string check)) {key : JSString}
    (h : (((Value.object out).member? key).any fun w => !w.isUndefined) = true) :
    ((Value.object out).text? key).isSome = true := by
  cases hmember : (Value.object out).member? key with
  | none =>
      rw [hmember] at h
      cases h
  | some w =>
      obtain ⟨schema, hfield, hparsed⟩ := field_of_lookup_parse hout hmember
      obtain ⟨check, rfl⟩ : ∃ check, schema = .optional (.string check) := hfields _ hfield
      rw [Value.text?, hmember, Option.bind_some]
      rcases parse_optional_cases hparsed with rfl | hstring
      · rw [hmember] at h
        cases h
      · obtain ⟨s, -, rfl, -⟩ := parse_string_eq_some.mp hstring
        rfl

/-- An update that its contract has parsed names something to set, by the contract's own
refinement. -/
theorem given_of_parsed {formats : Formats} {payload input : Value}
    (h : (contractFor formats (str "organization") .update).input payload = some input) :
    (input.text? (str "name")).isSome = true ∨ (input.text? (str "slug")).isSome = true := by
  obtain ⟨hparse, hchanges⟩ := parse_refine_eq_some.mp h
  obtain ⟨members, out, -, hout, rfl⟩ := parse_object_eq_some hparse
  have hfields : ∀ field ∈ [(str "name", Schema.optional (textBetween 2 64)),
      (str "slug", .optional (.string isOrganizationSlug))],
      ∃ check, field.2 = .optional (.string check) := by
    intro field hfield
    simp only [List.mem_cons, List.not_mem_nil, or_false] at hfield
    rcases hfield with rfl | rfl
    · exact ⟨_, rfl⟩
    · exact ⟨_, rfl⟩
  rw [changesSomething, Bool.or_eq_true] at hchanges
  rcases hchanges with hname | hslug
  · exact .inl (isSome_text_of_given hout hfields hname)
  · exact .inr (isSome_text_of_given hout hfields hslug)

/-! ## What an update does -/

section Run

variable {formats : Formats} {flatten : ResourceKey → Operation → Value → Value}
  {ctx : ServiceContext} {payload input : Value} {ambient : Ambient} {tables : Tables}

/-- A slug is refused exactly where it is given and some organisation has it, be it the
caller's own. -/
theorem slugRefused_iff : slugRefused input tables = true ↔
    ∃ slug, input.text? (str "slug") = some slug ∧
      ∃ row ∈ tables.organization.rows, row.slug = slug := by
  constructor
  · intro h
    obtain ⟨slug, hslug, htaken⟩ := (Option.any_eq_true _ _).mp h
    obtain ⟨row, hrow⟩ := Option.isSome_iff_exists.mp htaken
    obtain ⟨hmem, hsame⟩ := Table.mem_of_head?_select hrow
    exact ⟨slug, hslug, row, hmem, beq_iff_eq.mp hsame⟩
  · intro h
    obtain ⟨slug, hslug, row, hrow, hsame⟩ := h
    by_contra hfree
    exact slug_of_not_refused hslug (Bool.eq_false_iff.mpr hfree) row hrow hsame

theorem run_executeOrganizationUpdate
    (hinput : (contractFor formats (str "organization") .update).input payload = some input) :
    (executeOrganizationUpdate formats flatten ctx payload ambient).run noFaults tables =
      ((if slugRefused input tables then refuse (slugConflict (input.text (str "slug")))
        else updateOrganization ctx.orgId (input.text? (str "name")) (input.text? (str "slug")) >>=
          fun updated => answered updated
            (serviceError .notFound (str "Organisation not found."))) >>=
        parseOutput (contractFor formats (str "organization") .update)).run noFaults tables := by
  rw [executeOrganizationUpdate, handlerFor_accepts hinput]
  cases hslug : input.text? (str "slug") with
  | none =>
      have hfree : slugRefused input tables = false := by rw [slugRefused, hslug]; rfl
      rw [hfree, organizationUpdate, hslug]
      rfl
  | some slug =>
      have hread : ((tables.organization.select (·.slug == slug)).head?).isSome =
          slugRefused input tables := by rw [slugRefused, hslug]; rfl
      rw [organizationUpdate, hslug, ← hread]
      refine Eq.trans (congrArg (fun p => Storage.Program.run p noFaults tables) (bind_assoc _ _ _)) ?_
      exact run_query_bind rfl tables

/-- Where the slug is taken, the update is refused and nothing written. -/
theorem run_of_refused
    (hinput : (contractFor formats (str "organization") .update).input payload = some input)
    (hrefused : slugRefused input tables = true) :
    (executeOrganizationUpdate formats flatten ctx payload ambient).run noFaults tables =
      (.refused (slugConflict (input.text (str "slug"))), tables) := by
  rw [run_executeOrganizationUpdate hinput, if_pos hrefused]
  rfl

/-- Where the slug is nobody's, the update is made, and answered if the members
can be counted. -/
theorem run_of_free {row : OrganizationRow}
    (hinput : (contractFor formats (str "organization") .update).input payload = some input)
    (hfree : slugRefused input tables = false) (hrow : row ∈ tables.organization.rows)
    (hid : row.id = ctx.orgId) :
    ∃ organization, tables.organization.update (isOrganization ctx.orgId)
        (withValues (input.text? (str "name")) (input.text? (str "slug"))) = some organization ∧
      (executeOrganizationUpdate formats flatten ctx payload ambient).run noFaults tables =
        (outputOutcome (contractFor formats (str "organization") .update)
          ((withValues (input.text? (str "name")) (input.text? (str "slug")) row).toValue
            (seatsOf ctx tables)), { tables with organization }) := by
  obtain ⟨organization, hupdate⟩ := exists_organizationUpdate ctx.orgId hfree
  refine ⟨organization, hupdate, ?_⟩
  have hgiven : ¬ ((input.text? (str "name")).isNone && (input.text? (str "slug")).isNone) = true := by
    intro hempty
    rw [Bool.and_eq_true, Option.isNone_iff_eq_none, Option.isNone_iff_eq_none] at hempty
    rcases given_of_parsed hinput with hname | hslug
    · rw [hempty.1] at hname
      cases hname
    · rw [hempty.2] at hslug
      cases hslug
  have hselect := Table.select_of_key isOrganization_clash hrow (beq_iff_eq.mpr hid)
  have hstatement : ((tables.organization.update (isOrganization ctx.orgId)
      (withValues (input.text? (str "name")) (input.text? (str "slug")))).map fun organization =>
        (((tables.organization.select (isOrganization ctx.orgId)).map
          (withValues (input.text? (str "name")) (input.text? (str "slug")))).head?,
          { tables with organization })) =
      some (some (withValues (input.text? (str "name")) (input.text? (str "slug")) row),
        { tables with organization }) := by
    rw [hupdate, hselect]
    rfl
  rw [run_executeOrganizationUpdate hinput, hfree, if_neg Bool.false_ne_true, updateOrganization,
    if_neg hgiven, bind_assoc, bind_assoc, run_perform_bind rfl hstatement]
  dsimp only
  rw [countSeats, bind_assoc, run_query_bind rfl]
  show (parseOutput _ _).run _ _ = _
  rw [parseOutput_eq]
  rfl

/-- An organisation is answered exactly where the number of its members is a safe integer.
-/
theorem answer_returns_iff {row : OrganizationRow} {memberCount : ℕ} :
    (∃ data, outputOutcome (contractFor formats (str "organization") .update)
      (row.toValue memberCount) = .returned data) ↔ (memberCount : ℤ) ≤ maxSafeInteger := by
  have houtput : (contractFor formats (str "organization") .update).output =
      (organizationDto formats).parse := rfl
  rw [outputOutcome, houtput]
  constructor
  · intro h
    by_contra hmany
    obtain ⟨data, hdata⟩ := h
    rw [organizationDto_refuses (not_le.mp hmany)] at hdata
    cases hdata
  · intro hfew
    rw [organizationDto_parse hfew]
    exact ⟨_, rfl⟩

/-! ## When an update succeeds, and what it leaves -/

/-- The update succeeds exactly where the slug is free and the members can be
counted safely. -/
theorem updateSucceeds_iff
    (hinput : (contractFor formats (str "organization") .update).input payload = some input)
    (hexists : HasOrganization tables ctx.orgId) :
    UpdateSucceeds formats flatten ctx payload ambient tables ↔
      slugRefused input tables = false ∧ (seatsOf ctx tables : ℤ) ≤ maxSafeInteger := by
  rw [UpdateSucceeds]
  cases hrefused : slugRefused input tables with
  | true =>
      rw [run_of_refused hinput hrefused]
      constructor
      · intro h
        obtain ⟨data, hdata⟩ := h
        cases hdata
      · intro h
        cases h.1
  | false =>
      obtain ⟨row, hrow, hid⟩ := hexists
      obtain ⟨organization, -, hrun⟩ := @run_of_free formats flatten ctx payload input ambient tables
        row hinput hrefused hrow hid
      rw [hrun, answer_returns_iff]
      exact ⟨fun hseats => ⟨rfl, hseats⟩, fun h => h.2⟩

theorem exists_updated
    (hinput : (contractFor formats (str "organization") .update).input payload = some input)
    (hexists : HasOrganization tables ctx.orgId) (hfree : slugRefused input tables = false) :
    ∃ organization, tables.organization.update (isOrganization ctx.orgId)
        (withValues (input.text? (str "name")) (input.text? (str "slug"))) = some organization ∧
      updatedTables formats flatten ctx payload ambient tables = { tables with organization } := by
  obtain ⟨row, hrow, hid⟩ := hexists
  obtain ⟨organization, hupdate, hrun⟩ := @run_of_free formats flatten ctx payload input ambient
    tables row hinput hfree hrow hid
  exact ⟨organization, hupdate, by rw [updatedTables, hrun]⟩

/-- After an update that took, the organisation is there with the slug it was given. -/
theorem hasSlug_of_update {organization : Table OrganizationRow OrganizationRow.Clash}
    {name slug : Option JSString} (hexists : HasOrganization tables ctx.orgId)
    (hupdate : tables.organization.update (isOrganization ctx.orgId) (withValues name slug) =
      some organization) :
    ∃ row ∈ organization.rows, row.id = ctx.orgId ∧ ∀ given, slug = some given → row.slug = given := by
  obtain ⟨row, hrow, hid⟩ := hexists
  refine ⟨withValues name slug row, ?_, hid, ?_⟩
  · rw [(Table.update_eq_some.mp hupdate).2]
    refine List.mem_map.mpr ⟨row, hrow, ?_⟩
    rw [Table.setWhere, isOrganization, if_pos (beq_iff_eq.mpr hid)]
  · intro given hgiven
    rw [withValues, hgiven]
    rfl

/-- A second update with the same values finds them set, and changes nothing. -/
theorem update_again {organization again : Table OrganizationRow OrganizationRow.Clash}
    {p : OrganizationRow → Bool} {name slug : Option JSString}
    (hupdate : tables.organization.update p (withValues name slug) = some organization)
    (hagain : organization.update p (withValues name slug) = some again) : again = organization := by
  refine (Table.update_eq_self hagain).mpr fun row hrow hnamed => ?_
  rw [(Table.update_eq_some.mp hupdate).2] at hrow
  obtain ⟨old, -, rfl⟩ := List.mem_map.mp hrow
  by_cases hold : p old = true
  · rw [Table.setWhere, if_pos hold]
    cases name <;> cases slug <;> rfl
  · rw [Table.setWhere, if_neg hold] at hnamed
    exact (hold hnamed).elim

/-! ## The law -/

/-- A successful update rewrites the organisation's row as it is told, and no other table.
-/
theorem updatedTables_eq
    (hinput : (contractFor formats (str "organization") .update).input payload = some input)
    (hexists : HasOrganization tables ctx.orgId) (hfree : slugRefused input tables = false) :
    updatedTables formats flatten ctx payload ambient tables =
        { tables with
          organization := (updatedTables formats flatten ctx payload ambient tables).organization } ∧
      (updatedTables formats flatten ctx payload ambient tables).organization.rows =
        tables.organization.rows.map fun row =>
          if row.id = ctx.orgId then
            { row with
              name := (input.text? (str "name")).getD row.name
              slug := (input.text? (str "slug")).getD row.slug }
          else row := by
  obtain ⟨organization, hupdate, hupdated⟩ := @exists_updated formats flatten ctx payload input
    ambient tables hinput hexists hfree
  rw [hupdated]
  refine ⟨rfl, ?_⟩
  rw [show (_ : Tables).organization.rows = organization.rows from rfl,
    (Table.update_eq_some.mp hupdate).2]
  refine List.map_congr_left fun row _ => ?_
  by_cases hid : row.id = ctx.orgId
  · rw [Table.setWhere, isOrganization, if_pos (beq_iff_eq.mpr hid), if_pos hid]
    rfl
  · rw [Table.setWhere, isOrganization, beq_false_of_ne hid, if_neg Bool.false_ne_true, if_neg hid]

/-- An update that sets no slug succeeds again after it has succeeded, and changes nothing
more. -/
theorem updateAgain_of_unslugged
    (hinput : (contractFor formats (str "organization") .update).input payload = some input)
    (hexists : HasOrganization tables ctx.orgId) (hslug : input.text? (str "slug") = none)
    (hseats : (seatsOf ctx tables : ℤ) ≤ maxSafeInteger) :
    UpdateSucceeds formats flatten ctx payload ambient
        (updatedTables formats flatten ctx payload ambient tables) ∧
      updatedTables formats flatten ctx payload ambient
          (updatedTables formats flatten ctx payload ambient tables) =
        updatedTables formats flatten ctx payload ambient tables := by
  have hfree : ∀ tables : Tables, slugRefused input tables = false := by
    intro tables
    rw [slugRefused, hslug]
    rfl
  obtain ⟨organization, hupdate, hupdated⟩ := @exists_updated formats flatten ctx payload input
    ambient tables hinput hexists (hfree tables)
  obtain ⟨row, hrow, hid, -⟩ := hasSlug_of_update hexists hupdate
  have hstill : HasOrganization { tables with organization } ctx.orgId := ⟨row, hrow, hid⟩
  obtain ⟨again, hagain, hupdatedAgain⟩ := @exists_updated formats flatten ctx payload input
    ambient { tables with organization } hinput hstill (hfree _)
  rw [hupdated]
  refine ⟨(updateSucceeds_iff hinput hstill).mpr ⟨hfree _, hseats⟩, ?_⟩
  rw [hupdatedAgain, update_again hupdate hagain]

/-- An update that has set a slug is refused the second time. -/
theorem not_updateAgain_of_slug {slug : JSString}
    (hinput : (contractFor formats (str "organization") .update).input payload = some input)
    (hexists : HasOrganization tables ctx.orgId) (hslug : input.text? (str "slug") = some slug)
    (hfree : slugRefused input tables = false) :
    ¬ UpdateSucceeds formats flatten ctx payload ambient
      (updatedTables formats flatten ctx payload ambient tables) := by
  obtain ⟨organization, hupdate, hupdated⟩ := @exists_updated formats flatten ctx payload input
    ambient tables hinput hexists hfree
  obtain ⟨row, hrow, hid, hset⟩ := hasSlug_of_update hexists hupdate
  rw [hupdated, updateSucceeds_iff hinput ⟨row, hrow, hid⟩]
  intro h
  have htaken : slugRefused input { tables with organization } = true :=
    slugRefused_iff.mpr ⟨slug, hslug, row, hrow, hset slug hslug⟩
  rw [htaken] at h
  cases h.1

/-- **Updating an organisation.**  The law holds of an update that gives no slug,
as far as the members can be counted, and of one whose slug is another
organisation's; never of one that gives a free slug, or the organisation's own. -/
theorem organization_update_iff
    (hinput : (contractFor formats (str "organization") .update).input payload = some input)
    (hexists : HasOrganization tables ctx.orgId) :
    UpdateLaw formats flatten ctx payload input ambient tables ↔ UpdatesLawfully ctx input tables := by
  have hsucceeds := @updateSucceeds_iff formats flatten ctx payload input ambient tables hinput
    hexists
  rw [UpdatesLawfully]
  cases hslug : input.text? (str "slug") with
  | none =>
      have hfree : slugRefused input tables = false := by rw [slugRefused, hslug]; rfl
      constructor
      · intro hlaw
        refine (hsucceeds.mp (hlaw.succeeds.mpr ?_)).2
        intro slug hgiven
        rw [hslug] at hgiven
        cases hgiven
      · intro hseats
        have hupdated := @updatedTables_eq formats flatten ctx payload input ambient tables hinput
          hexists hfree
        refine ⟨?_, fun _ => hupdated.1, fun _ => hupdated.2, fun _ => ?_⟩
        · refine iff_of_true (hsucceeds.mpr ⟨hfree, hseats⟩) ?_
          intro slug hgiven
          rw [hslug] at hgiven
          cases hgiven
        · exact updateAgain_of_unslugged hinput hexists hslug hseats
  | some slug =>
      constructor
      · intro hlaw
        by_contra hnowhere
        have hunheld : ∀ given, input.text? (str "slug") = some given →
            ∀ row ∈ tables.organization.rows, row.id ≠ ctx.orgId → row.slug ≠ given := by
          intro given hgiven row hrow hother hsame
          obtain rfl : slug = given := Option.some.inj (hslug.symm.trans hgiven)
          exact hnowhere ⟨row, hrow, hother, hsame⟩
        have hdone := hlaw.succeeds.mpr hunheld
        exact not_updateAgain_of_slug hinput hexists hslug (hsucceeds.mp hdone).1 (hlaw.again hdone).1
      · intro h
        obtain ⟨row, hrow, hother, hsame⟩ := h
        have hrefused : slugRefused input tables = true :=
          slugRefused_iff.mpr ⟨slug, hslug, row, hrow, hsame⟩
        have hfails : ¬ UpdateSucceeds formats flatten ctx payload ambient tables := by
          rw [hsucceeds, hrefused]
          intro h
          cases h.1
        refine ⟨iff_of_false hfails fun hfree => ?_, fun h => (hfails h).elim,
          fun h => (hfails h).elim, fun h => (hfails h).elim⟩
        exact hfree slug hslug row hrow hother hsame

end Run

/-! ## An organisation keeps its slug -/

section Demonstration

def updatingOwner : ServiceContext :=
  { requestId := str "r1", orgId := str "o1", userId := str "u1", role := .owner,
    plan := str "free", deadlineAt := 0 }

/-- A new name, and the slug the organisation has. -/
def renamed : Value :=
  .object [(str "name", .string (str "Acme Ltd")), (str "slug", .string (str "acme"))]

/-- An update that repeats the organisation's own slug is refused as taken. -/
theorem own_slug_refused :
    (contractFor roughFormats (str "organization") .update).input renamed = some renamed ∧
      HasOrganization soleOwned updatingOwner.orgId ∧
      ¬ UpdateLaw roughFormats (fun _ _ _ => .null) updatingOwner renamed renamed idleAmbient
        soleOwned := by
  refine ⟨rfl, by decide, fun hlaw => ?_⟩
  have hfree : ∀ slug, renamed.text? (str "slug") = some slug →
      ∀ row ∈ soleOwned.organization.rows, row.id ≠ updatingOwner.orgId → row.slug ≠ slug := by
    intro slug _ row hrow hother
    obtain rfl := List.mem_singleton.mp hrow
    exact (hother rfl).elim
  obtain ⟨data, hdata⟩ := hlaw.succeeds.mpr hfree
  cases hdata

/-- A new name alone. -/
def retitled : Value := .object [(str "name", .string (str "Acme Ltd"))]

/-- An owner gives the organisation another name and keeps its slug, and the law holds. -/
theorem retitled_lawful :
    HasOrganization soleOwned updatingOwner.orgId ∧
      UpdateLaw roughFormats (fun _ _ _ => .null) updatingOwner retitled retitled idleAmbient
        soleOwned := by
  have hexists : HasOrganization soleOwned updatingOwner.orgId := by decide
  refine ⟨hexists, (organization_update_iff rfl hexists).mpr ?_⟩
  show (seatsOf updatingOwner soleOwned : ℤ) ≤ maxSafeInteger
  decide

end Demonstration

end Guardrail
