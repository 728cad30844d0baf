import GuardrailPlatform.LastOwner
import GuardrailPlatform.Paging

/-!
# Pages of projects

`project.read` answers a page and where the next one starts: the creation time
of the page's last row, as an ISO string.  The column keeps microseconds and
the string milliseconds, and the next page asks for what is strictly older.

A client that follows the cursors is done after finitely many calls and sees no
project twice.  It sees them all exactly where no page ends inside a
millisecond: the rest of that millisecond is below the page and above its
cursor, and no later page asks for it.
-/

namespace Guardrail

open Js
open Storage (Outcome)
open Paging (Clear Serves Walk older)

/-! ## The rows behind a cursor -/

/-- The projects a listing is about. -/
def matching (organizationId : JSString) (includeArchived : Bool) (row : ProjectRow) : Bool :=
  row.organizationId == organizationId && (includeArchived || row.archivedAt.isNone)

/-- A column's order, cut to the millisecond a cursor has room for. -/
def millisecond (order : ℤ) : ℤ := order / 1000

theorem millisecond_order (t : Timestamp) : millisecond t.order = t.instant.ms := by
  have := t.micros.isLt
  unfold millisecond Timestamp.order
  omega

def created (row : ProjectRow) : ℤ := row.createdAt.order

/-- A row is listed where it matches and is older than the cursor by the millisecond, the
cursor's own unit. -/
theorem listed_eq (organizationId : JSString) (includeArchived : Bool) (before : Option Instant)
    (row : ProjectRow) : ProjectService.listed organizationId includeArchived before row =
      (matching organizationId includeArchived row &&
        older created millisecond (before.map Instant.ms) row) := by
  cases before with
  | none => rfl
  | some t =>
      have hiff : row.createdAt.order < (Timestamp.ofInstant t).order ↔
          millisecond (created row) < t.ms := by
        rw [created, millisecond_order]
        have := row.createdAt.micros.isLt
        simp only [Timestamp.order, Timestamp.ofInstant, Fin.val_zero]
        omega
      rw [ProjectService.listed, matching, older, Option.map_some, Option.all_some, Option.all_some,
        decide_eq_decide.mpr hiff]

/-- Every row a cursor leaves, in the order of the listing. -/
def rowsBehind (tables : Tables) (organizationId : JSString) (includeArchived : Bool)
    (cursor : Option ℤ) : List ProjectRow :=
  newestFirst ProjectRow.createdAt
    ((tables.project.rows.filter (matching organizationId includeArchived)).filter
      (older created millisecond cursor))

/-- A page is the first rows behind its cursor, and one more to tell whether
there are others. -/
theorem listRows_eq (tables : Tables) (organizationId : JSString) (limit : ℕ)
    (before : Option Instant) (includeArchived : Bool) :
    ProjectService.listRows tables organizationId limit before includeArchived =
      (rowsBehind tables organizationId includeArchived (before.map Instant.ms)).take
        (limit + 1) := by
  rw [ProjectService.listRows, rowsBehind, Storage.Table.select, List.filter_filter]
  congr 3
  funext row
  rw [listed_eq, Bool.and_comm]

/-- The storage query serves the rows behind a cursor in order, as the library
asks. -/
theorem serves_rowsBehind (tables : Tables) (organizationId : JSString) (includeArchived : Bool) :
    Serves created millisecond
      (tables.project.rows.filter (matching organizationId includeArchived))
      (rowsBehind tables organizationId includeArchived) where
  monotone a b h := Int.ediv_le_ediv (by decide) h
  complete cursor := List.mergeSort_perm _ _
  sorted cursor := by
    have hsorted := @List.pairwise_mergeSort ProjectRow
      (fun a b => decide (b.createdAt.order ≤ a.createdAt.order))
      (fun a b c hab hbc => decide_eq_true ((of_decide_eq_true hbc).trans (of_decide_eq_true hab)))
      (fun a b => by simpa using le_total b.createdAt.order a.createdAt.order)
      ((tables.project.rows.filter (matching organizationId includeArchived)).filter
        (older created millisecond cursor))
    exact hsorted.imp fun hab => of_decide_eq_true hab

theorem rowsBehind_none (tables : Tables) (organizationId : JSString) (includeArchived : Bool) :
    rowsBehind tables organizationId includeArchived none =
      newestFirst ProjectRow.createdAt
        (tables.project.rows.filter (matching organizationId includeArchived)) := by
  have hall : ∀ rows : List ProjectRow, rows.filter (older created millisecond none) = rows :=
    fun rows => List.filter_eq_self.mpr fun _ _ => rfl
  rw [rowsBehind, hall]

/-- One row more than the limit tells that there is a next page, and is not shown. -/
theorem pageOf_take (limit : ℕ) (rows : List ProjectRow) :
    ProjectService.pageOf limit (rows.take (limit + 1)) =
      if limit < rows.length then
        { items := rows.take limit,
          nextCursor :=
            (rows.take limit).getLast?.map fun row => toISOString row.createdAt.instant }
      else { items := rows, nextCursor := none } := by
  rw [ProjectService.pageOf, List.length_take, List.take_take, Nat.min_eq_left (Nat.le_succ limit)]
  by_cases hmore : limit < rows.length
  · rw [if_pos hmore, if_pos (by omega)]
  · rw [if_neg hmore, if_neg (by omega), List.take_of_length_le (by omega)]

/-! ## One call of the operation -/

/-- A project as the contract answers it. -/
def ProjectRow.dto (row : ProjectRow) : Value :=
  .object [(str "id", .string row.id), (str "name", .string row.name),
    (str "slug", .string row.slug), (str "description", nullableValue .string row.description),
    (str "archivedAt", nullableValue Timestamp.toValue row.archivedAt),
    (str "createdAt", row.createdAt.toValue)]

/-- A project passes its output schema, and comes out as the answer shows it. -/
theorem parse_projectDto (formats : Formats) (row : ProjectRow) :
    (projectDto formats).parse row.toValue = some row.dto := by
  obtain ⟨id, organizationId, name, slug, description, createdById, archivedAt, createdAt,
    updatedAt⟩ := row
  cases description <;> cases archivedAt <;> rfl

/-- A page of projects passes its output schema, one project after the other. -/
theorem parseItems_projectDto (formats : Formats) (rows : List ProjectRow) :
    parseItems (projectDto formats).parse (rows.map ProjectRow.toValue) =
      some (rows.map ProjectRow.dto) := by
  induction rows with
  | nil => rfl
  | cons row rows ih =>
      rw [List.map_cons, parseItems, parse_projectDto, Option.bind_some, ih]
      rfl

/-- A page as the contract answers it. -/
def pageValue (page : ProjectService.Page) : Value :=
  .object [(str "items", .array (page.items.map ProjectRow.dto)),
    (str "nextCursor", nullableValue .string page.nextCursor)]

/-- A page that the handler returns always fits the output schema of its contract. -/
theorem parse_page (formats : Formats) (page : ProjectService.Page) :
    (contractFor formats (str "project") .read).output
      (.object [(str "items", .array (page.items.map ProjectRow.toValue)),
        (str "nextCursor", nullableValue .string page.nextCursor)]) = some (pageValue page) := by
  have hitems : (Schema.array (projectDto formats)).parse
      (.array (page.items.map ProjectRow.toValue)) =
        some (.array (page.items.map ProjectRow.dto)) := by
    rw [Schema.parse, Value.items?, Option.bind_some, parseItems_projectDto]
    rfl
  have hcursor : (Schema.nullable text).parse (nullableValue .string page.nextCursor) =
      some (nullableValue .string page.nextCursor) := by
    cases page.nextCursor <;> rfl
  have hdefined : (nullableValue Value.string page.nextCursor).isUndefined = false := by
    cases page.nextCursor <;> rfl
  have hobject : (Schema.object [(str "items", .array (projectDto formats)),
      (str "nextCursor", .nullable text)]).parse
        (.object [(str "items", .array (page.items.map ProjectRow.toValue)),
          (str "nextCursor", nullableValue .string page.nextCursor)]) = some (pageValue page) := by
    have hfields : parseFields [(str "items", .array (projectDto formats)),
        (str "nextCursor", .nullable text)]
          [(str "items", .array (page.items.map ProjectRow.toValue)),
            (str "nextCursor", nullableValue .string page.nextCursor)] =
        some [(str "items", .array (page.items.map ProjectRow.dto)),
          (str "nextCursor", nullableValue .string page.nextCursor)] :=
      parseFields_of_forall (.cons ⟨rfl, rfl, hitems⟩ (.cons ⟨rfl, hdefined, hcursor⟩ .nil))
    rw [Schema.parse, Value.ownMembers?, Option.bind_some, hfields]
    rfl
  exact hobject

/-- The body of a `project.read`. -/
def pageRequest (limit : ℕ) (includeArchived : Bool) (cursor : Option JSString) : Value :=
  .object ((cursor.map fun c => (str "cursor", Value.string c)).toList ++
    [(str "limit", .number (.finite (.ofInt limit))),
      (str "includeArchived", .bool includeArchived)])

/-- A page request within the bounds passes its input schema as it is. -/
theorem parse_pageRequest (formats : Formats) {limit : ℕ} (h : 1 ≤ limit ∧ limit ≤ 100)
    (includeArchived : Bool) (cursor : Option JSString) :
    (contractFor formats (str "project") .read).input (pageRequest limit includeArchived cursor) =
      some (pageRequest limit includeArchived cursor) := by
  let given : Schema := .withDefault (intBetween 1 100) (.number (.finite (.ofInt 20)))
  have hlimit : given.parse (.number (.finite (.ofInt limit))) =
      some (.number (.finite (.ofInt limit))) := by
    have hparse := intBetween_parse 1 100 limit
    rwa [if_pos (by omega)] at hparse
  have hfields : parseFields
      [(str "limit", given), (str "includeArchived", .withDefault .boolean (.bool false))]
      ((cursor.map fun c => (str "cursor", Value.string c)).toList ++
        [(str "limit", .number (.finite (.ofInt limit))),
          (str "includeArchived", .bool includeArchived)]) =
      some [(str "limit", .number (.finite (.ofInt limit))),
        (str "includeArchived", .bool includeArchived)] := by
    apply parseFields_of_forall
    cases cursor with
    | none => exact .cons ⟨rfl, rfl, hlimit⟩ (.cons ⟨rfl, rfl, rfl⟩ .nil)
    | some c => exact .cons ⟨rfl, rfl, hlimit⟩ (.cons ⟨rfl, rfl, rfl⟩ .nil)
  have hobject : (Schema.object [(str "cursor", nullish text), (str "limit", given),
      (str "includeArchived", .withDefault .boolean (.bool false))]).parse
        (pageRequest limit includeArchived cursor) =
      some (pageRequest limit includeArchived cursor) := by
    rw [pageRequest, Schema.parse, Value.ownMembers?, Option.bind_some, parseFields, hfields]
    cases cursor <;> rfl
  exact hobject

section Calls

variable (formats : Formats) (flatten : ResourceKey → Operation → Value → Value)
  (ctx : ServiceContext) (ambient : Ambient) (tables : Tables) (limit : ℕ) (includeArchived : Bool)

/-- What one `project.read` answers. -/
def readPage (cursor : Option JSString) : Outcome ServiceError Value :=
  (((handlerFor formats flatten (str "project") .read (projectRead formats.newDate)).execute ctx
    (pageRequest limit includeArchived cursor) ambient).run (fun _ => none) tables).1

/-- The text of a cursor. -/
inductive CursorText : Option ℤ → Option JSString → Prop
  | first : CursorText none none
  | after {t : Instant} (hread : ReadsBack formats t) :
      CursorText (some t.ms) (some (toISOString t))

variable {formats tables limit includeArchived}

/-- A date's text is never empty, so a cursor is always seen as one. -/
theorem toISOString_ne_nil (t : Instant) : toISOString t ≠ [] := by
  have hz : str "Z" ≠ [] := by decide
  intro h
  exact hz (List.append_eq_nil_iff.mp h).2

theorem projectRead_pageRequest (text : Option JSString) :
    projectRead formats.newDate ctx (pageRequest limit includeArchived text) ambient =
      ProjectService.list formats.newDate ctx.orgId limit text includeArchived >>= fun page =>
        pure (.object [(str "items", .array (page.items.map ProjectRow.toValue)),
          (str "nextCursor", nullableValue .string page.nextCursor)]) := by
  have hlimit : (pageRequest limit includeArchived text).member? (str "limit") =
      some (.number (.finite (.ofInt limit))) := by
    cases text <;> rfl
  have hcount : (pageRequest limit includeArchived text).count (str "limit") = limit := by
    rw [Value.count, hlimit]
    dsimp only
    rw [Finite.toInt?_ofInt, Option.getD_some, Int.toNat_natCast]
  have hcursor : (pageRequest limit includeArchived text).text? (str "cursor") = text := by
    cases text <;> rfl
  have hflag : (pageRequest limit includeArchived text).flag? (str "includeArchived") =
      some includeArchived := by
    cases text <;> rfl
  rw [projectRead, hcount, hcursor, hflag, Option.getD_some]

/-- The one storage call behind a cursor's page, and which rows it reads. -/
theorem list_eq {cursor : Option ℤ} {text : Option JSString}
    (htext : CursorText formats cursor text) (organizationId : JSString) :
    ProjectService.list formats.newDate organizationId limit text includeArchived =
      Storage.Program.query fun tables => ProjectService.pageOf limit
        ((rowsBehind tables organizationId includeArchived cursor).take (limit + 1)) := by
  cases htext with
  | first =>
      rw [ProjectService.list, Option.filter_none]
      simp only [listRows_eq, Option.map_none]
  | @after t hread =>
      have hnonempty : (some (toISOString t)).filter (· ≠ []) = some (toISOString t) := by
        simp [toISOString_ne_nil]
      rw [ProjectService.list, hnonempty]
      dsimp only
      rw [show formats.newDate (.string (toISOString t)) = some t from hread]
      simp only [listRows_eq, Option.map_some]

/-- **One page** is the first rows behind its cursor, as many as the limit, with a cursor
where there are more. -/
theorem readPage_eq (hlimit : 1 ≤ limit ∧ limit ≤ 100) {cursor : Option ℤ}
    {text : Option JSString} (htext : CursorText formats cursor text) :
    readPage formats flatten ctx ambient tables limit includeArchived text =
      .returned (pageValue (ProjectService.pageOf limit
        ((rowsBehind tables ctx.orgId includeArchived cursor).take (limit + 1)))) := by
  unfold readPage handlerFor
  dsimp only
  rw [parse_pageRequest formats hlimit]
  dsimp only
  rw [projectRead_pageRequest, list_eq htext, Storage.Program.bind_assoc]
  let page := ProjectService.pageOf limit
    ((rowsBehind tables ctx.orgId includeArchived cursor).take (limit + 1))
  have houtput : ((parseOutput (contractFor formats (str "project") .read)
      (.object [(str "items", .array (page.items.map ProjectRow.toValue)),
        (str "nextCursor", nullableValue .string page.nextCursor)])).run (fun _ => none) tables).1 =
      .returned (pageValue page) := by
    rw [parseOutput, parse_page]
    rfl
  exact houtput

end Calls

/-! ## Following the cursors -/

/-- The items a client collects that calls again for as long as it is given a cursor. -/
inductive PageWalk (read : Option JSString → Outcome ServiceError Value) :
    Option JSString → List Value → Prop
  | last {cursor : Option JSString} {page : Value} {items : List Value}
      (hread : read cursor = .returned page)
      (hitems : page.member? (str "items") = some (.array items))
      (hlast : page.member? (str "nextCursor") = some .null) : PageWalk read cursor items
  | next {cursor : Option JSString} {page : Value} {items rest : List Value} {next : JSString}
      (hread : read cursor = .returned page)
      (hitems : page.member? (str "items") = some (.array items))
      (hmore : page.member? (str "nextCursor") = some (.string next))
      (hrest : PageWalk read (some next) rest) : PageWalk read cursor (items ++ rest)

/-- Reading page after page by one reader from one cursor has one outcome. -/
theorem pageWalk_unique {read : Option JSString → Outcome ServiceError Value}
    {cursor : Option JSString} {items items' : List Value} (h : PageWalk read cursor items)
    (h' : PageWalk read cursor items') : items = items' := by
  induction h generalizing items' with
  | last hread hitems hlast =>
      cases h' with
      | last hread' hitems' _ =>
          obtain rfl := Outcome.returned.inj (hread.symm.trans hread')
          exact Value.array.inj (Option.some.inj (hitems.symm.trans hitems'))
      | next hread' _ hmore' _ =>
          obtain rfl := Outcome.returned.inj (hread.symm.trans hread')
          cases hlast.symm.trans hmore'
  | next hread hitems hmore _ ih =>
      cases h' with
      | last hread' _ hlast' =>
          obtain rfl := Outcome.returned.inj (hread.symm.trans hread')
          cases hmore.symm.trans hlast'
      | next hread' hitems' hmore' hrest' =>
          obtain rfl := Outcome.returned.inj (hread.symm.trans hread')
          obtain rfl := Value.array.inj (Option.some.inj (hitems.symm.trans hitems'))
          obtain rfl := Value.string.inj (Option.some.inj (hmore.symm.trans hmore'))
          rw [ih hrest']

/-- The walk ends, with every matching project once, the newest first. -/
def CollectsAll (read : Option JSString → Outcome ServiceError Value) (rows : List ProjectRow) :
    Prop :=
  ∃ collected : List ProjectRow, PageWalk read none (collected.map ProjectRow.dto) ∧
    collected.Perm rows ∧ collected.Pairwise fun a b => b.createdAt.order ≤ a.createdAt.order

section Walks

variable {formats : Formats} {flatten : ResourceKey → Operation → Value → Value}
  {ctx : ServiceContext} {ambient : Ambient} {tables : Tables} {limit : ℕ} {includeArchived : Bool}

/-- The calls follow the walk over the rows, page by page, where every creation date is read
back. -/
theorem pageWalk_of_walk (hlimit : 1 ≤ limit ∧ limit ≤ 100)
    (hreads : ∀ row ∈ tables.project.rows, ReadsBack formats row.createdAt.instant)
    {cursor : Option ℤ} {rows : List ProjectRow}
    (h : Walk created millisecond (rowsBehind tables ctx.orgId includeArchived) limit cursor rows)
    {text : Option JSString} (htext : CursorText formats cursor text) :
    PageWalk (readPage formats flatten ctx ambient tables limit includeArchived) text
      (rows.map ProjectRow.dto) := by
  induction h generalizing text with
  | last hlast =>
      have hread := @readPage_eq formats flatten ctx ambient tables limit includeArchived hlimit
        _ _ htext
      rw [pageOf_take, if_neg (not_lt.mpr hlast)] at hread
      exact .last hread rfl rfl
  | @next cursor row rest hmore hrow hrest ih =>
      have hread := @readPage_eq formats flatten ctx ambient tables limit includeArchived hlimit
        _ _ htext
      rw [pageOf_take, if_pos hmore, hrow] at hread
      have hmem : row ∈ tables.project.rows := by
        have hserved := List.mem_of_mem_take (List.mem_of_mem_getLast? hrow)
        have hlisted := ((serves_rowsBehind tables ctx.orgId includeArchived).complete cursor).subset
          hserved
        exact (List.mem_filter.mp (List.mem_filter.mp hlisted).1).1
      have hnext : CursorText formats (some (millisecond (created row)))
          (some (toISOString row.createdAt.instant)) := by
        rw [created, millisecond_order]
        exact .after (hreads row hmem)
      rw [List.map_append]
      exact .next hread rfl rfl (ih hnext)

/-- **Every walk ends**, newest first and without a repetition, having shown only rows that
match. -/
theorem pages_end (hlimit : 1 ≤ limit ∧ limit ≤ 100)
    (hreads : ∀ row ∈ tables.project.rows, ReadsBack formats row.createdAt.instant) :
    ∃ rows, Walk created millisecond (rowsBehind tables ctx.orgId includeArchived) limit none rows ∧
      PageWalk (readPage formats flatten ctx ambient tables limit includeArchived) none
        (rows.map ProjectRow.dto) ∧
      rows.Subperm (tables.project.rows.filter (matching ctx.orgId includeArchived)) ∧
      rows.Pairwise fun a b => b.createdAt.order ≤ a.createdAt.order := by
  have hserves := serves_rowsBehind tables ctx.orgId includeArchived
  obtain ⟨rows, hwalk⟩ := Paging.exists_walk hserves hlimit.1 none
  have hcomplete := (hserves.complete none).subperm
  refine ⟨rows, hwalk, pageWalk_of_walk hlimit hreads hwalk .first, ?_,
    Paging.sorted_of_walk hserves hwalk⟩
  exact ((Paging.subperm_of_walk hserves hwalk).trans hcomplete).trans List.filter_sublist.subperm

/-- A client misses nothing when the walk over the rows does not. -/
theorem collectsAll_iff_perm (hlimit : 1 ≤ limit ∧ limit ≤ 100)
    (hreads : ∀ row ∈ tables.project.rows, ReadsBack formats row.createdAt.instant)
    {rows : List ProjectRow}
    (hwalk : Walk created millisecond (rowsBehind tables ctx.orgId includeArchived) limit none
      rows) :
    CollectsAll (readPage formats flatten ctx ambient tables limit includeArchived)
        (tables.project.rows.filter (matching ctx.orgId includeArchived)) ↔
      rows.Perm (rowsBehind tables ctx.orgId includeArchived none) := by
  have hserves := serves_rowsBehind tables ctx.orgId includeArchived
  have hpages : PageWalk (readPage formats flatten ctx ambient tables limit includeArchived) none
      (rows.map ProjectRow.dto) := pageWalk_of_walk hlimit hreads hwalk .first
  have hserved : (rowsBehind tables ctx.orgId includeArchived none).Perm
      (tables.project.rows.filter (matching ctx.orgId includeArchived)) := by
    rw [rowsBehind_none]
    exact List.mergeSort_perm _ _
  constructor
  · intro h
    obtain ⟨collected, hwalked, hperm, -⟩ := h
    have hlength := congrArg List.length (pageWalk_unique hpages hwalked)
    rw [List.length_map, List.length_map, hperm.length_eq, ← hserved.length_eq] at hlength
    exact (Paging.subperm_of_walk hserves hwalk).perm_of_length_le hlength.ge
  · intro hperm
    exact ⟨rows, hpages, hperm.trans hserved, Paging.sorted_of_walk hserves hwalk⟩

/-- The cursors that a walk may meet are the creation times of the matching
rows. -/
theorem marks_rowsBehind : (rowsBehind tables ctx.orgId includeArchived none).map
    (millisecond ∘ created) =
      (newestFirst ProjectRow.createdAt
        (tables.project.rows.filter (matching ctx.orgId includeArchived))).map
          fun row => row.createdAt.instant.ms := by
  have hmarks : millisecond ∘ created = fun row : ProjectRow => row.createdAt.instant.ms := by
    funext row
    exact millisecond_order row.createdAt
  rw [hmarks, rowsBehind_none]

/-- **Pagination.**  Following the cursors collects every matching project once,
the newest first, exactly when no page ends inside a millisecond. -/
theorem pages_complete_iff (hlimit : 1 ≤ limit ∧ limit ≤ 100)
    (hreads : ∀ row ∈ tables.project.rows, ReadsBack formats row.createdAt.instant) :
    CollectsAll (readPage formats flatten ctx ambient tables limit includeArchived)
        (tables.project.rows.filter (matching ctx.orgId includeArchived)) ↔
      Clear limit ((newestFirst ProjectRow.createdAt
        (tables.project.rows.filter (matching ctx.orgId includeArchived))).map
          fun row => row.createdAt.instant.ms) := by
  have hserves := serves_rowsBehind tables ctx.orgId includeArchived
  obtain ⟨rows, hwalk⟩ := Paging.exists_walk hserves hlimit.1 none
  rw [collectsAll_iff_perm hlimit hreads hwalk, Paging.perm_iff_clear hserves hlimit.1 hwalk,
    marks_rowsBehind]

end Walks

/-! ## Two projects -/

section Demonstration

def projectAt (id slug : JSString) (createdAt : Timestamp) : ProjectRow :=
  { id, organizationId := str "acme", name := str "Launch", slug, description := none,
    createdById := str "ada", archivedAt := none, createdAt, updatedAt := createdAt }

/-- Two projects of one organisation. -/
def twoProjects (first second : Timestamp) : Tables :=
  { (default : Tables) with
    project := ⟨[projectAt (str "p2") (str "two") first, projectAt (str "p1") (str "one") second],
      List.pairwise_pair.mpr (by rintro (h | ⟨-, h⟩) <;> cases h)⟩ }

def reader : ServiceContext :=
  { requestId := str "request-1", orgId := str "acme", userId := str "ada", role := .member,
    plan := str "free", deadlineAt := 0 }

/-- One millisecond after the epoch. -/
def secondInstant : Instant := ⟨1, by decide⟩

/-- Both dates of the example are read back as they were written. -/
theorem twoProjects_reads {formats : Formats} {first second : Timestamp}
    (hfirst : ReadsBack formats first.instant) (hsecond : ReadsBack formats second.instant) :
    ∀ row ∈ (twoProjects first second).project.rows, ReadsBack formats row.createdAt.instant :=
  List.forall_mem_cons.mpr ⟨hfirst, List.forall_mem_cons.mpr ⟨hsecond, by simp⟩⟩

theorem listed_twoProjects {first second : Timestamp} (h : second.order ≤ first.order) :
    newestFirst ProjectRow.createdAt
        ((twoProjects first second).project.rows.filter (matching reader.orgId false)) =
      [projectAt (str "p2") (str "two") first, projectAt (str "p1") (str "one") second] := by
  have hmatching : (twoProjects first second).project.rows.filter (matching reader.orgId false) =
      [projectAt (str "p2") (str "two") first, projectAt (str "p1") (str "one") second] := rfl
  rw [hmatching, newestFirst]
  exact List.mergeSort_of_pairwise (List.pairwise_pair.mpr (decide_eq_true h))

/-- Created 345 microseconds apart, inside one millisecond: pages of one row show one project. -/
theorem second_project_lost :
    (∀ row ∈ (twoProjects ⟨epoch, 456⟩ ⟨epoch, 111⟩).project.rows,
      ReadsBack (readingBack [epoch]) row.createdAt.instant) ∧
    ¬ CollectsAll (readPage (readingBack [epoch]) (fun _ _ _ => .null) reader idleAmbient
        (twoProjects ⟨epoch, 456⟩ ⟨epoch, 111⟩) 1 false)
      ((twoProjects ⟨epoch, 456⟩ ⟨epoch, 111⟩).project.rows.filter
        (matching reader.orgId false)) := by
  have hreads := @twoProjects_reads (readingBack [epoch]) ⟨epoch, 456⟩ ⟨epoch, 111⟩ (by rfl) (by rfl)
  refine ⟨hreads, ?_⟩
  have hserves := serves_rowsBehind (twoProjects ⟨epoch, 456⟩ ⟨epoch, 111⟩) reader.orgId false
  obtain ⟨rows, hwalk⟩ := Paging.exists_walk hserves (le_refl 1) none
  rw [collectsAll_iff_perm (by decide) hreads hwalk,
    Paging.perm_iff_clear hserves (le_refl 1) hwalk, marks_rowsBehind,
    listed_twoProjects (by decide)]
  intro hclear
  exact lt_irrefl _ (hclear 0 0 0 rfl rfl)

/-- Two projects created a millisecond apart are both shown, on two pages of one. -/
theorem both_projects_shown :
    CollectsAll (readPage (readingBack [secondInstant, epoch]) (fun _ _ _ => .null) reader
        idleAmbient (twoProjects ⟨secondInstant, 0⟩ ⟨epoch, 0⟩) 1 false)
      ((twoProjects ⟨secondInstant, 0⟩ ⟨epoch, 0⟩).project.rows.filter
        (matching reader.orgId false)) := by
  have hreads := @twoProjects_reads (readingBack [secondInstant, epoch]) ⟨secondInstant, 0⟩ ⟨epoch, 0⟩
    (by rfl) (by rfl)
  refine (pages_complete_iff (by decide) hreads).mpr ?_
  rw [listed_twoProjects (by decide)]
  intro k a b ha hb
  cases k with
  | zero =>
      obtain rfl := Option.some.inj ha
      obtain rfl := Option.some.inj hb
      decide
  | succ k =>
      have hlength := (List.getElem?_eq_some_iff.mp hb).1
      simp at hlength

end Demonstration

end Guardrail
