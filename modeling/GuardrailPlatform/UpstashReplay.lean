import GuardrailPlatform.ReplayStore

/-!
# The replay store on Upstash

A command goes out as a pipeline of one, and its result is looked for in the
first entry of the answer.  A request that fails outright is reported as
unavailable.  An answer whose entry carries no result is not: the lookup makes
`undefined` of it, which a claim takes for a key that existed and a recall for a
key that did not.
-/

namespace Guardrail

open Js

/-! ## The endpoint -/

/-- How a `fetch` ends.  A body that is not JSON is `none`. -/
inductive Fetched
  | networkError
  | responded (status : ℕ) (body : Option Value)

/-- The Upstash endpoint, which is sent the parts of one command. -/
abbrev PipelineEndpoint := List JSString → Fetched

/-- `response.ok`. -/
def okStatus (status : ℕ) : Bool := decide (200 ≤ status ∧ status ≤ 299)

/-- `payload[0]`.  `none` is the throw on `undefined` and `null`. -/
def firstEntry : Value → Option Value
  | .undefined => none
  | .null => none
  | .array items => some (items.headD .undefined)
  | .string s => some ((s.head?.map fun u => Value.string [u]).getD .undefined)
  | .object members => some ((members.lookup (str "0")).getD .undefined)
  | _ => some .undefined

/-- `entry?.result`. -/
def resultOf (entry : Value) : Value := (entry.member? (str "result")).getD .undefined

/-- `command`: the result, or `none` where it throws. -/
def command (endpoint : PipelineEndpoint) (parts : List JSString) : Option Value :=
  match endpoint parts with
  | .networkError => none
  | .responded status body =>
    if okStatus status then (body.bind firstEntry).map resultOf else none

/-- `String(value)` of a number. -/
def numberString : Number → JSString
  | .nan => str "NaN"
  | .infinity negative => if negative then str "-Infinity" else str "Infinity"
  | .finite x => numberText x

def setParts (key : JSString) (ttlMs : Number) : List JSString :=
  [str "SET", str "replay:" ++ key, str "1", str "NX", str "PX", numberString ttlMs]

def getParts (key : JSString) : List JSString := [str "GET", str "idem:" ++ key]

/-- `result === "OK"`. -/
def isOkText : Value → Bool
  | .string s => s == str "OK"
  | _ => false

/-- `UpstashReplayStore.claim`. -/
def claimUpstash (endpoint : PipelineEndpoint) (key : JSString) (ttlMs : Number) : ReplayClaim :=
  match command endpoint (setParts key ttlMs) with
  | none => .unavailable
  | some result => if isOkText result then .fresh else .duplicate

/-- What a recall answers. -/
inductive Recollection
  | stored (reply : JSString)
  | nothing
  | unavailable
deriving DecidableEq

/-- `UpstashReplayStore.recall`. -/
def recallUpstash (endpoint : PipelineEndpoint) (key : JSString) : Recollection :=
  match command endpoint (getParts key) with
  | none => .unavailable
  | some (.string reply) => .stored reply
  | some _ => .nothing

/-! ## What the endpoint reports -/

/-- The result the endpoint reports: the one of its answer's first entry. -/
def Fetched.reported : Fetched → Option Value
  | .responded status (some (.array (entry :: _))) =>
    if okStatus status then entry.member? (str "result") else none
  | _ => none

/-- The request fails outright: no answer, a refusing status, or a body that is
not JSON or holds nothing to look into. -/
def Fetched.fails : Fetched → Bool
  | .networkError => true
  | .responded status body => !okStatus status || (body.bind firstEntry).isNone

/-- A claim that does not guess. -/
def claimReported (answer : Fetched) : ReplayClaim :=
  match answer.reported with
  | some .null => .duplicate
  | some result => if isOkText result then .fresh else .unavailable
  | none => .unavailable

/-- A recall that does not guess. -/
def recallReported (answer : Fetched) : Recollection :=
  match answer.reported with
  | some .null => .nothing
  | some (.string reply) => .stored reply
  | _ => .unavailable

/-- A reply is read as a success exactly where it is the text `OK`. -/
theorem isOkText_iff {result : Value} : isOkText result = true ↔ result = .string (str "OK") := by
  cases result <;> simp [isOkText]

/-- A command throws exactly where the endpoint's answer counts as a failure. -/
theorem command_eq_none {endpoint : PipelineEndpoint} {parts : List JSString} :
    command endpoint parts = none ↔ (endpoint parts).fails = true := by
  unfold command
  cases endpoint parts with
  | networkError => exact iff_of_true rfl rfl
  | responded status body =>
      cases hok : okStatus status with
      | false => simp [Fetched.fails, hok]
      | true => cases hentry : body.bind firstEntry <;> simp [Fetched.fails, hok, hentry]

/-- A result that the endpoint reports for a command is what `command` returns. -/
theorem command_of_reported {endpoint : PipelineEndpoint} {parts : List JSString} {result : Value}
    (h : (endpoint parts).reported = some result) : command endpoint parts = some result := by
  unfold Fetched.reported at h
  split at h
  · rename_i status entry rest hanswer
    split at h
    · rename_i hok
      simp only [command, hanswer, hok, if_true, Option.bind_some, firstEntry, List.headD_cons,
        Option.map_some, resultOf, h, Option.getD_some]
    · cases h
  · cases h

theorem fails_of_command {endpoint : PipelineEndpoint} {parts : List JSString} {result : Value}
    (h : command endpoint parts = some result) : (endpoint parts).fails = false := by
  by_contra hfails
  rw [command_eq_none.mpr (Bool.eq_true_of_not_eq_false hfails)] at h
  cases h

/-- An answer fails and nothing is reported, reports what `command` returns, or
reports nothing while `command` returns something all the same. -/
theorem command_cases (endpoint : PipelineEndpoint) (parts : List JSString) :
    ((endpoint parts).fails = true ∧ command endpoint parts = none ∧
      (endpoint parts).reported = none) ∨
    (∃ result, (endpoint parts).fails = false ∧ command endpoint parts = some result ∧
      (endpoint parts).reported = some result) ∨
    ∃ result, (endpoint parts).fails = false ∧ command endpoint parts = some result ∧
      (endpoint parts).reported = none := by
  cases hreported : (endpoint parts).reported with
  | some result =>
      have hcommand := command_of_reported hreported
      exact .inr (.inl ⟨result, fails_of_command hcommand, hcommand, rfl⟩)
  | none =>
      cases hcommand : command endpoint parts with
      | none => exact .inl ⟨command_eq_none.mp hcommand, rfl, rfl⟩
      | some result => exact .inr (.inr ⟨result, fails_of_command hcommand, rfl, rfl⟩)

/-- **The replay store and what it was told.**  A claim agrees with what the
endpoint reported where the request fails outright or the report is `OK` or a
nil; a recall where it fails outright or the report is a text or a nil. -/
theorem replay_answers_agree_iff (endpoint : PipelineEndpoint) (key : JSString) (ttlMs : Number) :
    (claimUpstash endpoint key ttlMs = claimReported (endpoint (setParts key ttlMs)) ↔
      (endpoint (setParts key ttlMs)).fails = true ∨
      (endpoint (setParts key ttlMs)).reported = some (.string (str "OK")) ∨
      (endpoint (setParts key ttlMs)).reported = some .null) ∧
    (recallUpstash endpoint key = recallReported (endpoint (getParts key)) ↔
      (endpoint (getParts key)).fails = true ∨
      (∃ reply, (endpoint (getParts key)).reported = some (.string reply)) ∨
      (endpoint (getParts key)).reported = some .null) := by
  constructor
  · unfold claimUpstash claimReported
    rcases command_cases endpoint (setParts key ttlMs) with
      ⟨hfails, hcommand, hreported⟩ | ⟨result, hfails, hcommand, hreported⟩ |
      ⟨result, hfails, hcommand, hreported⟩
    · simp [hfails, hcommand, hreported]
    · simp only [hfails, hcommand, hreported, Bool.false_eq_true, false_or, Option.some.injEq,
        ← isOkText_iff]
      cases hok : isOkText result <;> cases result <;> simp_all [isOkText]
    · simp only [hfails, hcommand, hreported, Bool.false_eq_true, reduceCtorEq, or_self, iff_false]
      cases isOkText result <;> decide
  · unfold recallUpstash recallReported
    rcases command_cases endpoint (getParts key) with
      ⟨hfails, hcommand, hreported⟩ | ⟨result, hfails, hcommand, hreported⟩ |
      ⟨result, hfails, hcommand, hreported⟩
    · simp [hfails, hcommand, hreported]
    · simp only [hfails, hcommand, hreported]
      cases result <;> simp
    · simp only [hfails, hcommand, hreported]
      cases result <;> simp

/-- An endpoint whose command failed inside the pipeline. -/
def failingPipeline : PipelineEndpoint := fun _ =>
  .responded 200 (some (.array [.object [(str "error", .string (str "ERR max requests limit exceeded"))]]))

/-- A failed `SET` is taken for a duplicate, a failed `GET` for a key that is not there. -/
theorem replay_answers_guess :
    claimUpstash failingPipeline (str "k") (.finite (.ofInt 5000)) = .duplicate ∧
    claimReported (failingPipeline (setParts (str "k") (.finite (.ofInt 5000)))) = .unavailable ∧
    recallUpstash failingPipeline (str "k") = .nothing ∧
    recallReported (failingPipeline (getParts (str "k"))) = .unavailable := by
  refine ⟨?_, ?_, ?_, ?_⟩ <;> decide

end Guardrail
