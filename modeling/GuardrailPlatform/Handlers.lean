import GuardrailPlatform.Contracts
import GuardrailPlatform.Tables

/-!
# Handlers

`handlerFor` wraps the business logic of one operation between the two schemas
of its contract.  Logic reads an input that has been parsed, so the accessors
below are total: on a parsed input each finds what its schema put there.
-/

/-- A member that is a string. -/
def Js.Value.text? (input : Js.Value) (key : Js.JSString) : Option Js.JSString :=
  (input.member? key).bind Value.string?

/-- A member its schema makes a string. -/
def Js.Value.text (input : Js.Value) (key : Js.JSString) : Js.JSString := (input.text? key).getD []

/-- A member that is a boolean. -/
def Js.Value.flag? (input : Js.Value) (key : Js.JSString) : Option Bool :=
  match input.member? key with
  | some (.bool b) => some b
  | _ => none

/-- A member its schema makes a count. -/
def Js.Value.count (input : Js.Value) (key : Js.JSString) : ℕ :=
  match input.member? key with
  | some (.number (.finite x)) => (x.toInt?.getD 0).toNat
  | _ => 0

/-- A member that is a string or `null`. -/
def Js.Value.nullableText? (input : Js.Value) (key : Js.JSString) : Option (Option Js.JSString) :=
  match input.member? key with
  | some (.string s) => some (some s)
  | some .null => some none
  | _ => none

namespace Guardrail

open Js
open Storage (Outcome)
open Storage.Program (refuse crash)

/-- The role a parsed input names. -/
def grantedRole (input : Value) : OrgRole :=
  (orgRoles.find? fun role => role.name == input.text (str "role")).getD lowestRole

/-- A coded error without data. -/
def serviceError (code : ErrorCode) (message : JSString) : ServiceError :=
  { code, message, data := none }

/-- The logic of one operation. -/
abbrev Logic := ServiceContext → Value → Ambient → Storing Value

/-- What `execute` yields. -/
abbrev Handling := Ambient → Storing Value

/-- A process with nothing to offer but the time. -/
def idleAmbient : Ambient :=
  { uuid := fun n => digitText n, clock := fun _ => epoch, dbNow := .ofInstant epoch,
    entitlements := .crashed, checkout := .crashed }

/-- The contract's output schema, or a throw. -/
def parseOutput (contract : Contract) (output : Value) : Storing Value :=
  match contract.output output with
  | some parsed => pure parsed
  | none => crash

/-- `flatten` is `error.flatten()` of what the input schema found. -/
def handlerFor (formats : Formats) (flatten : ResourceKey → Operation → Value → Value)
    (resource : ResourceKey) (operation : Operation) (run : Logic) : HandlerEntry Handling where
  resource
  operation
  execute ctx raw ambient :=
    match (contractFor formats resource operation).input raw with
    | none =>
      refuse
        { code := .invalidInput, message := str "Input does not match the contract.",
          data := some (flatten resource operation raw) }
    | some input => do
      let output ← run ctx input ambient
      parseOutput (contractFor formats resource operation) output

section Execute

variable {formats : Formats} {flatten : ResourceKey → Operation → Value → Value}
  {resource : ResourceKey} {operation : Operation} {run : Logic} {ctx : ServiceContext}
  {payload : Value} {ambient : Ambient}

/-- An input that the contract parses is handed to the handler's logic, whose answer is
parsed in turn. -/
theorem handlerFor_accepts {input : Value}
    (h : (contractFor formats resource operation).input payload = some input) :
    (handlerFor formats flatten resource operation run).execute ctx payload ambient =
      (run ctx input ambient).bind (parseOutput (contractFor formats resource operation)) := by
  simp only [handlerFor, h]
  rfl

/-- An input that is not parsed is refused before anything is read. -/
theorem handlerFor_rejects (h : (contractFor formats resource operation).input payload = none) :
    ∃ error, (handlerFor formats flatten resource operation run).execute ctx payload ambient =
      refuse error := by
  simp only [handlerFor, h]
  exact ⟨_, rfl⟩

/-- `execute` refuses, or runs the logic on an input its contract passes and parses what that
returns. -/
theorem handlerFor_cases {motive : Storing Value → Prop} (hrefuse : ∀ error, motive (refuse error))
    (hrun : ∀ input, (contractFor formats resource operation).input payload = some input →
      motive ((run ctx input ambient).bind (parseOutput (contractFor formats resource operation)))) :
    motive ((handlerFor formats flatten resource operation run).execute ctx payload ambient) := by
  cases hinput : (contractFor formats resource operation).input payload with
  | none =>
      obtain ⟨error, hexecute⟩ := @handlerFor_rejects formats flatten resource operation run ctx
        payload ambient hinput
      rw [hexecute]
      exact hrefuse error
  | some input =>
      rw [handlerFor_accepts hinput]
      exact hrun input hinput

end Execute

/-- How `execute` settles, for `handle`. -/
def Execution.ofOutcome : Outcome ServiceError Value → Execution
  | .returned data => .returned data
  | .refused error => .refused error
  | .crashed => .crashed

end Guardrail
