import GuardrailPlatform.CheckThenAct
import GuardrailPlatform.KeyRace
import GuardrailPlatform.Services

/-!
# Racing project creates

`project.create` looks for its slug in one call and inserts in the next, in no
transaction, and the unique index on organisation and slug stands behind it.  A
request that sees the slug taken throws a coded CONFLICT.  One that comes too
late for the index throws what the database driver throws, which `handle`
reports as INTERNAL.

Any number of such requests for one slug run a race for a key (`refines`), and
so exactly one row is created, and every other request is refused with CONFLICT
exactly where none looks while another stands between its look and its insert.
-/

namespace Guardrail

open Js
open Storage (Fault Outcome Shared Table Turn)
open Storage.Program
open Storage.Shared (Begun UnderWay)
open KeyRace (Stage Race opening)

/-! ## Refusals -/

/-- The error `handle` reports for an outcome. -/
def refusal {α : Type} : Outcome ServiceError α → Option WireError
  | .returned _ => none
  | .refused error => some error.toWire
  | .crashed => some internalError

/-- The program has ended, and `handle` reports the code. -/
def RefusedWith (code : ErrorCode) (p : Storing Value) : Prop :=
  ∃ outcome error, p = .done outcome ∧ refusal outcome = some error ∧ error.code = code.name

/-! ## Requests -/

/-- A `project.create` whose payload the contract accepts. -/
structure Creation (formats : Formats) where
  ctx : ServiceContext
  payload : Value
  input : Value
  ambient : Ambient
  accepted : (contractFor formats (str "project") .create).input payload = some input

namespace Creation

variable {formats : Formats} (request : Creation formats)

/-- The row it inserts. -/
def row : ProjectRow := requestedProject request.ctx request.input request.ambient

/-- What the handler does, as `handle` runs it. -/
def program (flatten : ResourceKey → Operation → Value → Value) : Storing Value :=
  (handlerFor formats flatten (str "project") .create projectCreate).execute request.ctx
    request.payload request.ambient

/-- After a look that found nothing. -/
def inserting : Storing Value := do
  let created ← ProjectService.create request.row
  let output ← (match created with
    | none => refuse (serviceError .internal (str "The project was not created."))
    | some row => pure row.toValue : Storing Value)
  parseOutput (contractFor formats (str "project") .create) output

/-- After the insert. -/
def answer : Storing Value :=
  parseOutput (contractFor formats (str "project") .create) request.row.toValue

def slugClash : ServiceError :=
  serviceError .conflict (str "That slug is taken in this organisation.")

/-- What is left of the handler at each stage of the race. -/
def programAt (flatten : ResourceKey → Operation → Value → Value) : Stage → Storing Value
  | .waiting => request.program flatten
  | .passed => request.inserting
  | .created => request.answer
  | .refused => refuse slugClash
  | .failed => crash

end Creation

/-- A row has the slug in the organisation. -/
def Holds (organizationId slug : JSString) (tables : Tables) : Prop :=
  ∃ row ∈ tables.project.rows, row.organizationId = organizationId ∧ row.slug = slug

instance (organizationId slug : JSString) (tables : Tables) :
    Decidable (Holds organizationId slug tables) :=
  inferInstanceAs (Decidable (∃ row ∈ tables.project.rows, _))

/-- Requests for one slug of one organisation.  `randomUUID` gives each an id no row has. -/
structure Contest {formats : Formats} {ι : Type} (organizationId slug : JSString)
    (requests : ι → Creation formats) (tables : Tables) : Prop where
  organization : ∀ i, (requests i).ctx.orgId = organizationId
  slug : ∀ i, (requests i).input.text (str "slug") = slug
  fresh : ∀ i, ∀ old ∈ tables.project.rows, (requests i).row.id ≠ old.id

/-- Requests that have arrived and made no call yet. -/
def contest {formats : Formats} {ι : Type} (flatten : ResourceKey → Operation → Value → Value)
    (requests : ι → Creation formats) (tables : Tables) : Shared ι Tables ServiceError Value :=
  { store := tables, threads := fun i => (requests i).program flatten }

section Calls

variable {formats : Formats} {flatten : ResourceKey → Operation → Value → Value}
  {request : Creation formats} {tables : Tables}

theorem isSome_bySlug {organizationId slug : JSString} :
    ((tables.project.select fun row =>
      row.organizationId == organizationId && row.slug == slug).head?).isSome = true ↔
      Holds organizationId slug tables := by
  rw [List.isSome_head?]
  constructor
  · intro hne
    obtain ⟨row, hrow⟩ := List.exists_mem_of_ne_nil _ hne
    obtain ⟨hmem, hkeys⟩ := List.mem_filter.mp hrow
    rw [Bool.and_eq_true, beq_iff_eq, beq_iff_eq] at hkeys
    exact ⟨row, hmem, hkeys⟩
  · intro hholds
    obtain ⟨row, hmem, hkeys⟩ := hholds
    refine List.ne_nil_of_mem (List.mem_filter.mpr ⟨hmem, ?_⟩)
    rw [Bool.and_eq_true, beq_iff_eq, beq_iff_eq]
    exact hkeys

theorem program_advance : (request.program flatten).advance none tables =
    (if Holds request.ctx.orgId (request.input.text (str "slug")) tables
      then refuse Creation.slugClash else request.inserting, tables) := by
  rw [Creation.program, handlerFor_accepts request.accepted, projectCreate]
  change (_ >>= _ >>= _ : Storing Value).advance none tables = _
  rw [bind_assoc, ProjectService.bySlug, advance_query_bind]
  by_cases hholds : Holds request.ctx.orgId (request.input.text (str "slug")) tables
  · rw [if_pos hholds, if_pos (isSome_bySlug.mpr hholds)]
    rfl
  · rw [if_neg hholds, if_neg (isSome_bySlug.not.mpr hholds), bind_assoc]
    rfl

theorem inserting_advance : request.inserting.advance none tables =
    match tables.project.insert request.row with
    | none => (crash, tables)
    | some project => (request.answer, { tables with project }) := by
  rw [Creation.inserting, ProjectService.create, perform, call_bind, advance]
  cases hinsert : tables.project.insert request.row with
  | none => rfl
  | some project => rfl

/-- An insertion that the table takes ends its request with the row's answer. -/
theorem inserting_advance_of_some {project : Table ProjectRow ProjectRow.Clash}
    (h : tables.project.insert request.row = some project) :
    request.inserting.advance none tables = (request.answer, { tables with project }) := by
  rw [inserting_advance, h]

/-- An insertion that the table refuses crashes the request, and changes
nothing. -/
theorem inserting_advance_of_none (h : tables.project.insert request.row = none) :
    request.inserting.advance none tables = (crash, tables) := by
  rw [inserting_advance, h]

/-- The answer to an insertion is a result or a crash, and no coded refusal. -/
theorem answer_eq : ∃ outcome, request.answer = .done outcome ∧ ∀ error, outcome ≠ .refused error := by
  rw [Creation.answer, parseOutput]
  cases (contractFor formats (str "project") .create).output request.row.toValue with
  | none => exact ⟨.crashed, rfl, by simp⟩
  | some parsed => exact ⟨.returned parsed, rfl, by simp⟩

/-- The program of a request has ended exactly where the stage of the request is over. -/
theorem ended_programAt_iff {stage : Stage} :
    (request.programAt flatten stage).Ended ↔ stage.Over := by
  cases stage with
  | waiting =>
      refine iff_of_false ?_ fun h => h.1 rfl
      rw [Creation.programAt, Creation.program, handlerFor_accepts request.accepted]
      exact id
  | passed => exact iff_of_false id fun h => h.2 rfl
  | created =>
      obtain ⟨outcome, hanswer, -⟩ := @answer_eq formats request
      rw [Creation.programAt, hanswer]
      exact iff_of_true trivial ⟨by simp, by simp⟩
  | refused => exact iff_of_true trivial ⟨by simp, by simp⟩
  | failed => exact iff_of_true trivial ⟨by simp, by simp⟩

/-- CONFLICT is what a request is told that has seen the slug taken, and no other. -/
theorem refusedWith_conflict_iff {stage : Stage} (h : stage.Over) :
    RefusedWith .conflict (request.programAt flatten stage) ↔ stage = .refused := by
  have hinternal : internalError.code ≠ ErrorCode.conflict.name := by decide
  cases stage with
  | waiting => exact (h.1 rfl).elim
  | passed => exact (h.2 rfl).elim
  | created =>
      obtain ⟨outcome, hanswer, hunrefused⟩ := @answer_eq formats request
      refine iff_of_false ?_ (by simp)
      intro hconflict
      obtain ⟨outcome', error, hdone, herror, hcode⟩ := hconflict
      rw [Creation.programAt, hanswer] at hdone
      obtain rfl := done.inj hdone
      cases outcome with
      | returned data => cases herror
      | refused refused => exact hunrefused refused rfl
      | crashed =>
          obtain rfl := Option.some.inj herror
          exact hinternal hcode
  | refused => exact iff_of_true ⟨_, _, rfl, rfl, rfl⟩ rfl
  | failed =>
      refine iff_of_false ?_ (by simp)
      intro hconflict
      obtain ⟨outcome', error, hdone, herror, hcode⟩ := hconflict
      obtain rfl := done.inj hdone
      obtain rfl := Option.some.inj herror
      exact hinternal hcode

end Calls

/-! ## The race -/

section Refinement

variable {formats : Formats} {flatten : ResourceKey → Operation → Value → Value} {ι : Type}
  {organizationId slug : JSString} {requests : ι → Creation formats} {tables : Tables}

/-- The store and the requests stand as the race does. -/
structure Refines (organizationId slug : JSString)
    (flatten : ResourceKey → Operation → Value → Value) (requests : ι → Creation formats)
    (tables : Tables) (race : Race ι) (shared : Shared ι Tables ServiceError Value) : Prop where
  held : race.held = true ↔ Holds organizationId slug shared.store
  threads : ∀ i, shared.threads i = (requests i).programAt flatten (race.stage i)
  /-- Nobody has created, or the one row created stands before the others. -/
  store : shared.store = tables ∧ (∀ i, race.stage i ≠ .created) ∨
    ∃ c project, race.stage c = .created ∧ project.rows = (requests c).row :: tables.project.rows ∧
      shared.store = { tables with project }

/-- At the start every request stands where the race of keys has it. -/
theorem refines_start : Refines organizationId slug flatten requests tables
    (opening (decide (Holds organizationId slug tables))) (contest flatten requests tables) := by
  constructor
  · rw [opening, contest, decide_eq_true_iff]
  · intro i
    rfl
  · exact .inl ⟨rfl, by simp [opening]⟩

variable [DecidableEq ι]

variable {race : Race ι} {shared : Shared ι Tables ServiceError Value}

/-- A turn of a request is a move of the race, if it leaves the key as the move
does. -/
theorem Refines.of_advance
    (h : Refines organizationId slug flatten requests tables race shared) {i : ι} (after : Tables)
    (hadvance : ((requests i).programAt flatten (race.stage i)).advance none shared.store =
      ((requests i).programAt flatten ((race.stage i).next race.held), after))
    (hheld : (race.move i).held = true ↔ Holds organizationId slug after)
    (hstore : after = tables ∧ (∀ j, (race.move i).stage j ≠ .created) ∨
      ∃ c project, (race.move i).stage c = .created ∧
        project.rows = (requests c).row :: tables.project.rows ∧
        after = { tables with project }) :
    Refines organizationId slug flatten requests tables (race.move i)
      (shared.take ⟨i, none⟩) := by
  have htaken : (shared.take ⟨i, none⟩).store = after := by
    rw [Shared.take, h.threads i, hadvance]
  constructor
  · rw [htaken]
    exact hheld
  · intro j
    by_cases hj : j = i
    · subst hj
      rw [Race.move_stage_self, Shared.take_threads_self shared ⟨j, none⟩, h.threads j, hadvance]
    · rw [Race.move_stage_of_ne race hj]
      exact (shared.take_threads_of_ne hj).trans (h.threads j)
  · rw [htaken]
    exact hstore

omit [DecidableEq ι] in
/-- The index stands behind the insert: it throws where the slug is held. -/
theorem insert_of_held (h : Refines organizationId slug flatten requests tables race shared)
    (hcontest : Contest organizationId slug requests tables) (i : ι) (hheld : race.held = true) :
    shared.store.project.insert (requests i).row = none := by
  obtain ⟨old, hold, horganization, hslug⟩ := h.held.mp hheld
  refine Table.insert_eq_none.mpr ⟨old, hold, .inr ⟨?_, ?_⟩⟩
  · exact (hcontest.organization i).trans horganization.symm
  · exact (hcontest.slug i).trans hslug.symm

omit [DecidableEq ι] in
/-- And only there: nothing has been inserted, and the id is a new one. -/
theorem insert_of_free {held : Bool}
    (h : Refines organizationId slug flatten requests tables race shared)
    (hcontest : Contest organizationId slug requests tables) (hsound : race.Sound held) (i : ι)
    (hfree : race.held = false) : shared.store = tables ∧
      ∃ project, tables.project.insert (requests i).row = some project := by
  have hstore : shared.store = tables := by
    rcases h.store with ⟨hsame, -⟩ | ⟨c, -, hcreated, -⟩
    · exact hsame
    · rw [hsound.holds c (.inl hcreated)] at hfree
      cases hfree
  refine ⟨hstore, Table.exists_insert ?_⟩
  intro old hold hclash
  rcases hclash with hid | ⟨horganization, hslug⟩
  · exact hcontest.fresh i old hold hid
  · rw [← Bool.not_eq_true, h.held, hstore] at hfree
    exact hfree ⟨old, hold, horganization.symm.trans (hcontest.organization i),
      hslug.symm.trans (hcontest.slug i)⟩

/-- Whoever has created stays so, and a move that does not take the key creates nothing. -/
theorem Refines.store_move {i : ι}
    (h : Refines organizationId slug flatten requests tables race shared)
    (hmove : (race.stage i).next race.held = .created → race.stage i = .created) :
    shared.store = tables ∧ (∀ j, (race.move i).stage j ≠ .created) ∨
      ∃ c project, (race.move i).stage c = .created ∧
        project.rows = (requests c).row :: tables.project.rows ∧
        shared.store = { tables with project } := by
  rcases h.store with ⟨hsame, hnone⟩ | ⟨c, project, hcreated, hrows, hstore⟩
  · left
    refine ⟨hsame, fun j hj => ?_⟩
    by_cases hmoved : j = i
    · subst hmoved
      rw [Race.move_stage_self] at hj
      exact hnone j (hmove hj)
    · rw [Race.move_stage_of_ne race hmoved] at hj
      exact hnone j hj
  · exact .inr ⟨c, project, Race.created_move hcreated, hrows, hstore⟩

/-- A call on the thread of a request that is through changes nothing on either side. -/
theorem Refines.take_over (h : Refines organizationId slug flatten requests tables race shared)
    {i : ι} (hover : (race.stage i).Over) :
    Refines organizationId slug flatten requests tables (race.move i) (shared.take ⟨i, none⟩) := by
  refine h.of_advance shared.store ?_ ?_ (h.store_move ?_)
  · rw [Stage.next_over hover]
    exact (ended_programAt_iff.mpr hover).advance none shared.store
  · rw [Race.move_held, or_iff_left hover.2]
    exact h.held
  · rw [Stage.next_over hover]
    exact id

theorem Refines.take_waiting (h : Refines organizationId slug flatten requests tables race shared)
    (hcontest : Contest organizationId slug requests tables) {i : ι}
    (hwaiting : race.stage i = .waiting) :
    Refines organizationId slug flatten requests tables (race.move i) (shared.take ⟨i, none⟩) := by
  refine h.of_advance shared.store ?_ ?_ (h.store_move ?_)
  · rw [hwaiting, Creation.programAt, program_advance, hcontest.organization i, hcontest.slug i]
    cases hheld : race.held with
    | true =>
        rw [if_pos (h.held.mp hheld)]
        rfl
    | false =>
        have hfree : ¬ Holds organizationId slug shared.store := by
          rw [← h.held, hheld]
          exact Bool.false_ne_true
        rw [if_neg hfree]
        rfl
  · rw [Race.move_held, hwaiting, or_iff_left (by simp)]
    exact h.held
  · rw [hwaiting]
    cases race.held <;> simp [Stage.next]

/-- The insert where the slug is taken by now: the index refuses it. -/
theorem Refines.take_late (h : Refines organizationId slug flatten requests tables race shared)
    (hcontest : Contest organizationId slug requests tables) {i : ι}
    (hpassed : race.stage i = .passed) (hheld : race.held = true) :
    Refines organizationId slug flatten requests tables (race.move i) (shared.take ⟨i, none⟩) := by
  have hinsert := insert_of_held h hcontest i hheld
  refine h.of_advance shared.store ?_ ?_ (h.store_move ?_)
  · rw [hpassed, hheld, Creation.programAt, inserting_advance_of_none hinsert]
    rfl
  · rw [Race.move_held, hheld]
    exact iff_of_true (.inl rfl) (h.held.mp hheld)
  · rw [hpassed, hheld]
    simp [Stage.next]

/-- The insertion of a request that has looked, where the slug is still free, is its move in
the race. -/
theorem Refines.take_first {held : Bool}
    (h : Refines organizationId slug flatten requests tables race shared)
    (hcontest : Contest organizationId slug requests tables) (hsound : race.Sound held) {i : ι}
    (hpassed : race.stage i = .passed) (hfree : race.held = false) :
    Refines organizationId slug flatten requests tables (race.move i) (shared.take ⟨i, none⟩) := by
  obtain ⟨hstore, project, hinsert⟩ := insert_of_free h hcontest hsound i hfree
  have hrows := (Table.insert_eq_some.mp hinsert).2
  refine h.of_advance { tables with project } ?_ ?_ ?_
  · rw [hpassed, hfree, hstore, Creation.programAt, inserting_advance_of_some hinsert]
    rfl
  · rw [Race.move_held]
    refine iff_of_true (.inr hpassed) ⟨(requests i).row, ?_, hcontest.organization i,
      hcontest.slug i⟩
    rw [hrows]
    exact List.mem_cons_self
  · refine .inr ⟨i, project, ?_, hrows, rfl⟩
    rw [Race.move_stage_self, hpassed, hfree]
    rfl

/-- Every call without a fault, of whichever request, is a move of the race. -/
theorem Refines.take {held : Bool}
    (h : Refines organizationId slug flatten requests tables race shared)
    (hcontest : Contest organizationId slug requests tables) (hsound : race.Sound held) (i : ι) :
    Refines organizationId slug flatten requests tables (race.move i) (shared.take ⟨i, none⟩) := by
  by_cases hover : (race.stage i).Over
  · exact h.take_over hover
  · by_cases hwaiting : race.stage i = .waiting
    · exact h.take_waiting hcontest hwaiting
    · have hpassed : race.stage i = .passed := by
        by_contra hnot
        exact hover ⟨hwaiting, hnot⟩
      cases hheld : race.held with
      | true => exact h.take_late hcontest hpassed hheld
      | false => exact h.take_first hcontest hsound hpassed hheld

/-- The race a run is. -/
def raceAfter (organizationId slug : JSString) (tables : Tables) (turns : List (Turn ι)) : Race ι :=
  (opening (decide (Holds organizationId slug tables))).after (turns.map (·.thread))

/-- **A run is a race.**  Calls none of which fails from outside are moves. -/
theorem refines_after (hcontest : Contest organizationId slug requests tables)
    {turns : List (Turn ι)} (hquiet : ∀ turn ∈ turns, turn.fault = none) :
    Refines organizationId slug flatten requests tables
      (raceAfter organizationId slug tables turns)
      ((contest flatten requests tables).after turns) := by
  induction turns with
  | nil => exact refines_start
  | cons turn earlier ih =>
      have hfault := hquiet turn List.mem_cons_self
      have hbefore := ih fun turn hturn => hquiet turn (List.mem_cons_of_mem _ hturn)
      have hnext := hbefore.take hcontest (Race.sound_after _ _) turn.thread
      rw [← hfault] at hnext
      exact hnext

/-- A request has begun exactly where the race has it past waiting. -/
theorem begun_iff {turns : List (Turn ι)} {i : ι} : Begun turns i ↔
    (raceAfter organizationId slug tables turns).stage i ≠ .waiting := by
  rw [raceAfter, Ne, Race.stage_eq_waiting_iff, not_not, Begun, List.mem_map]

theorem underWay_iff (hcontest : Contest organizationId slug requests tables)
    {turns : List (Turn ι)} (hquiet : ∀ turn ∈ turns, turn.fault = none) {i : ι} :
    (contest flatten requests tables).UnderWay turns i ↔
      (raceAfter organizationId slug tables turns).stage i = .passed := by
  rw [UnderWay, (refines_after hcontest hquiet).threads i, ended_programAt_iff,
    @begun_iff _ organizationId slug tables]
  constructor
  · intro h
    by_contra hnot
    exact h.2 ⟨h.1, hnot⟩
  · intro hpassed
    rw [hpassed]
    exact ⟨by simp, fun hover => hover.2 rfl⟩

/-! ## Any number of requests -/

/-- A request looks where no other stands between its look and its insert. -/
def LooksAlone (start : Shared ι Tables ServiceError Value) (earlier : List (Turn ι))
    (turn : Turn ι) : Prop :=
  ¬ Begun earlier turn.thread → ∀ i, ¬ start.UnderWay earlier i

/-- Exactly one row is created where the slug was free, none where it was taken,
and every other request is refused with CONFLICT. -/
def Settles (organizationId slug : JSString) (requests : ι → Creation formats) (tables : Tables)
    (shared : Shared ι Tables ServiceError Value) : Prop :=
  (Holds organizationId slug tables →
    shared.store = tables ∧ ∀ i, RefusedWith .conflict (shared.threads i)) ∧
  (¬ Holds organizationId slug tables →
    ∃ c project, project.rows = (requests c).row :: tables.project.rows ∧
      shared.store = { tables with project } ∧
      ∀ i, i ≠ c → RefusedWith .conflict (shared.threads i))

/-- Requests look alone exactly where the moves of the race they refine are all clear. -/
theorem run_looksAlone_iff (hcontest : Contest organizationId slug requests tables)
    {turns : List (Turn ι)} (hquiet : ∀ turn ∈ turns, turn.fault = none) :
    Trace.Run (LooksAlone (contest flatten requests tables)) turns ↔
      Trace.Run (Race.Clear (opening (decide (Holds organizationId slug tables))))
        (turns.map (·.thread)) := by
  induction turns with
  | nil => exact iff_of_true .start .start
  | cons turn earlier ih =>
      have hearlier : ∀ turn ∈ earlier, turn.fault = none :=
        fun turn hturn => hquiet turn (List.mem_cons_of_mem _ hturn)
      have hstep : LooksAlone (contest flatten requests tables) earlier turn ↔
          Race.Clear (opening (decide (Holds organizationId slug tables)))
            (earlier.map (·.thread)) turn.thread := by
        rw [LooksAlone, @begun_iff _ organizationId slug tables, Ne, not_not]
        simp only [underWay_iff hcontest hearlier]
        rfl
      constructor
      · intro hrun
        cases hrun with
        | next hrun hallowed => exact .next ((ih hearlier).mp hrun) (hstep.mp hallowed)
      · intro hrun
        cases hrun with
        | next hrun hallowed => exact .next ((ih hearlier).mpr hrun) (hstep.mpr hallowed)

/-- A request that is through was refused with CONFLICT exactly where its stage says so. -/
theorem refusedWith_conflict_after (hcontest : Contest organizationId slug requests tables)
    {turns : List (Turn ι)} (hquiet : ∀ turn ∈ turns, turn.fault = none) {i : ι}
    (hover : ((raceAfter organizationId slug tables turns).stage i).Over) :
    RefusedWith .conflict (((contest flatten requests tables).after turns).threads i) ↔
      (raceAfter organizationId slug tables turns).stage i = .refused := by
  rw [(@refines_after formats flatten _ _ _ _ _ _ hcontest _ hquiet).threads i,
    refusedWith_conflict_iff hover]

/-- A request that failed at the index is left with the wrong refusal. -/
theorem clean_of_settles (hcontest : Contest organizationId slug requests tables)
    {turns : List (Turn ι)} (hquiet : ∀ turn ∈ turns, turn.fault = none)
    (hover : ∀ i, ((raceAfter organizationId slug tables turns).stage i).Over)
    (h : Settles organizationId slug requests tables ((contest flatten requests tables).after turns))
    (i : ι) : (raceAfter organizationId slug tables turns).stage i ≠ .failed := by
  intro hfailed
  have hsound := Race.sound_after (decide (Holds organizationId slug tables))
    (turns.map (·.thread))
  rw [← raceAfter] at hsound
  have hunrefused : ¬ RefusedWith .conflict
      (((contest flatten requests tables).after turns).threads i) := by
    rw [refusedWith_conflict_after hcontest hquiet (hover i), hfailed]
    exact fun h => by cases h
  by_cases hheld : Holds organizationId slug tables
  · exact hunrefused ((h.1 hheld).2 i)
  · obtain ⟨c, -, -, -, hothers⟩ := h.2 hheld
    rcases hsound.holder (hsound.holds i (.inr (.inr hfailed))) with hopen | ⟨k, hcreated⟩
    · exact hheld (of_decide_eq_true hopen)
    · by_cases hwinner : i = c
      · have hrefused := hothers k fun hk => by
          rw [hk, ← hwinner, hfailed] at hcreated
          cases hcreated
        rw [refusedWith_conflict_after hcontest hquiet (hover k), hcreated] at hrefused
        cases hrefused
      · exact hunrefused (hothers i hwinner)

/-- Where none failed at the index, one has created and the others were refused by the look. -/
theorem settles_of_clean [Nonempty ι] (hcontest : Contest organizationId slug requests tables)
    {turns : List (Turn ι)} (hquiet : ∀ turn ∈ turns, turn.fault = none)
    (hover : ∀ i, ((raceAfter organizationId slug tables turns).stage i).Over)
    (hclean : ∀ i, (raceAfter organizationId slug tables turns).stage i ≠ .failed) :
    Settles organizationId slug requests tables
      ((contest flatten requests tables).after turns) := by
  have hstore := (@refines_after formats flatten _ _ _ _ _ _ hcontest _ hquiet).store
  have hsound := Race.sound_after (decide (Holds organizationId slug tables))
    (turns.map (·.thread))
  rw [← raceAfter] at hsound
  obtain ⟨htaken, hopen⟩ := Race.settled_of_clean hover hclean
  constructor
  · intro hheld
    have hall : ∀ i, (raceAfter organizationId slug tables turns).stage i = .refused :=
      htaken (decide_eq_true hheld)
    refine ⟨?_, fun i => (refusedWith_conflict_after hcontest hquiet (hover i)).mpr (hall i)⟩
    rcases hstore with ⟨hsame, -⟩ | ⟨c, -, hcreated, -⟩
    · exact hsame
    · rw [hall c] at hcreated
      cases hcreated
  · intro hfree
    obtain ⟨c, hcreated, hothers⟩ := hopen (decide_eq_false hfree)
    rcases hstore with ⟨-, hnone⟩ | ⟨winner, project, hwinner, hrows, hstore⟩
    · exact (hnone c hcreated).elim
    · refine ⟨winner, project, hrows, hstore, fun i hne => ?_⟩
      rw [refusedWith_conflict_after hcontest hquiet (hover i)]
      apply hothers
      rw [← hsound.unique winner c hwinner hcreated]
      exact hne

/-- Requests that are through are settled exactly if none has failed at the index. -/
theorem settles_iff_clean [Nonempty ι] (hcontest : Contest organizationId slug requests tables)
    {turns : List (Turn ι)} (hquiet : ∀ turn ∈ turns, turn.fault = none)
    (hover : ∀ i, ((raceAfter organizationId slug tables turns).stage i).Over) :
    Settles organizationId slug requests tables ((contest flatten requests tables).after turns) ↔
      ∀ i, (raceAfter organizationId slug tables turns).stage i ≠ .failed :=
  ⟨clean_of_settles hcontest hquiet hover, settles_of_clean hcontest hquiet hover⟩

/-- **Racing creates.**  When every request is through, one row has been created
and every other request refused with CONFLICT exactly if no request looked while
another stood between its look and its insert. -/
theorem racing_creates_iff [Nonempty ι] (hcontest : Contest organizationId slug requests tables)
    {turns : List (Turn ι)} (hquiet : ∀ turn ∈ turns, turn.fault = none)
    (hended : ∀ i, (((contest flatten requests tables).after turns).threads i).Ended) :
    Settles organizationId slug requests tables ((contest flatten requests tables).after turns) ↔
      Trace.Run (LooksAlone (contest flatten requests tables)) turns := by
  have hover : ∀ i, ((raceAfter organizationId slug tables turns).stage i).Over := by
    intro i
    have hi := hended i
    rw [(refines_after hcontest hquiet).threads i] at hi
    exact ended_programAt_iff.mp hi
  rw [settles_iff_clean hcontest hquiet hover, run_looksAlone_iff hcontest hquiet]
  exact Race.no_failure_iff hover

end Refinement

/-! ## Two requests -/

section Demonstration

/-- Two requests for one slug of `acme`. -/
def siteRequest (second : Bool) : Creation roughFormats :=
  { ctx := { requestId := str "r1", orgId := str "acme", userId := str "ada", role := .admin,
             plan := str "free", deadlineAt := 0 }
    payload := .object [(str "name", .string (str "Site")), (str "slug", .string (str "site"))]
    input := .object [(str "name", .string (str "Site")), (str "slug", .string (str "site"))]
    ambient := { idleAmbient with uuid := fun _ => if second then str "p2" else str "p1" }
    accepted := rfl }

/-- Two requests for one slug, in a store without projects, contest it. -/
theorem site_contest : Contest (str "acme") (str "site") siteRequest default := by
  constructor
  · intro i
    rfl
  · intro i
    rfl
  · intro i old hold
    cases hold

/-- The store both find. -/
def siteStart : Shared Bool Tables ServiceError Value :=
  contest (fun _ _ _ => .null) siteRequest default

/-- Calls in the given order, the newest first. -/
def callsOf (order : List Bool) : List (Turn Bool) := order.map fun second => ⟨second, none⟩

theorem callsOf_quiet (order : List Bool) : ∀ turn ∈ callsOf order, turn.fault = none := by
  intro turn hturn
  obtain ⟨second, -, rfl⟩ := List.mem_map.mp hturn
  rfl

/-- In the example each request is at the program which its stage in the race stands for. -/
theorem site_threads (order : List Bool) (i : Bool) : (siteStart.after (callsOf order)).threads i =
    (siteRequest i).programAt (fun _ _ _ => .null)
      ((raceAfter (str "acme") (str "site") default (callsOf order)).stage i) :=
  (refines_after site_contest (callsOf_quiet order)).threads i

/-- Both requests look, the first inserts, and the second is then told INTERNAL by the
constraint. -/
theorem late_create_internal :
    (∀ i, ((siteStart.after (callsOf [true, false, true, false])).threads i).Ended) ∧
      RefusedWith .internal ((siteStart.after (callsOf [true, false, true, false])).threads true) ∧
      ¬ Settles (str "acme") (str "site") siteRequest default
        (siteStart.after (callsOf [true, false, true, false])) := by
  have hsecond : (raceAfter (str "acme") (str "site") default
      (callsOf [true, false, true, false])).stage true = .failed := by decide
  have hover : ∀ i, ((raceAfter (str "acme") (str "site") default
      (callsOf [true, false, true, false])).stage i).Over := by decide
  refine ⟨?_, ?_, ?_⟩
  · intro i
    rw [site_threads, ended_programAt_iff]
    exact hover i
  · rw [site_threads, hsecond]
    exact ⟨_, _, rfl, rfl, rfl⟩
  · intro hsettles
    exact (settles_iff_clean site_contest (callsOf_quiet _) hover).mp hsettles true hsecond

/-- One after the other, the second request sees that the slug is taken and is told so. -/
theorem second_create_conflict : Settles (str "acme") (str "site") siteRequest default
    (siteStart.after (callsOf [true, false, false])) := by
  have hended : ∀ i, ((siteStart.after (callsOf [true, false, false])).threads i).Ended := by
    intro i
    rw [site_threads, ended_programAt_iff]
    cases i <;> decide
  have hrun : Trace.Run (LooksAlone siteStart) (callsOf [true, false, false]) := by
    apply (run_looksAlone_iff site_contest (callsOf_quiet _)).mpr
    refine .next (.next (.next .start ?_) ?_) ?_
    · intro _ i
      cases i <;> decide
    · intro hwaiting
      exact absurd hwaiting (by decide)
    · intro _ i
      cases i <;> decide
  exact (racing_creates_iff site_contest (callsOf_quiet _) hended).mpr hrun

end Demonstration

end Guardrail
