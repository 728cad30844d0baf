import GuardrailPlatform.Gateway
import GuardrailPlatform.RegistryData
import GuardrailPlatform.Schema

/-!
# The contracts

Input and output schemas of every operation, as `resources/*.contract.ts`
declare them.  Email and URL checking and `new Date(...)` are parameters.
-/

namespace Guardrail

open Js

/-- An own property is found among the keys an object schema finds. -/
theorem member?_of_ownMembers? {v : Value} {members : List (JSString × Value)}
    (h : v.ownMembers? = some members) (key : JSString) : v.member? key = members.lookup key := by
  cases v with
  | object own =>
      obtain rfl := Option.some.inj h
      rfl
  | date time =>
      obtain rfl := Option.some.inj h
      rfl
  | _ => cases h

/-- What the schemas leave to the schema library and the date constructor. -/
structure Formats where
  isEmail : JSString → Bool
  isUrl : JSString → Bool
  newDate : Value → Option Instant

/-- The schemas of an operation, with an input that cannot invent a role. -/
structure ContractSchemas where
  input : Schema
  output : Schema
  namesRole : input.namesOnly (str "role") = true

def ContractSchemas.contract (c : ContractSchemas) : Contract where
  input := c.input.parse
  output := c.output.parse
  keepsRole := by
    intro v w hparse role hrole
    obtain ⟨members, out, hmembers, rfl, hkept⟩ := string_of_namesOnly c.namesRole hparse
    obtain ⟨name, hname, hgiven⟩ := hkept role hrole
    have hmember : v.member? (str "role") = some (.string name) := by
      rw [member?_of_ownMembers? hmembers, hgiven]
    exact ⟨name, hname, by rw [namedRole, hmember]⟩

/-- `[A-Za-z]`. -/
def isLetterUnit (u : UInt16) : Bool := (97 ≤ u && u ≤ 122) || (65 ≤ u && u ≤ 90)

/-- `[A-Za-z0-9]`. -/
def isWordUnit (u : UInt16) : Bool := isLetterUnit u || (48 ≤ u && u ≤ 57)

/-- The name of an address, up to its `@`: `[A-Za-z0-9_'+\-.]*`, neither end a dot, nor
the last unit an apostrophe, and no two dots in a row. -/
def isAddressName (name : JSString) : Bool :=
  name.head? != some 46 && (name.getLast?.any fun u => isWordUnit u || [95, 43, 45].contains u) &&
    (name.all fun u => isWordUnit u || [95, 39, 43, 45, 46].contains u) &&
    ((name.splitOn 46).drop 1).all (!·.isEmpty)

/-- The domain of an address: labels of `[A-Za-z0-9][A-Za-z0-9-]*`, each before a dot, and a
last one of two letters or more. -/
def isAddressDomain (domain : JSString) : Bool :=
  match (domain.splitOn 46).reverse with
  | top :: labels =>
    !labels.isEmpty && decide (2 ≤ top.length) && top.all isLetterUnit &&
      labels.all fun label => label.head?.any isWordUnit && label.all fun u => isWordUnit u || u == 45
  | [] => false

/-- The pattern of `z.email()`. -/
def isEmailAddress (s : JSString) : Bool :=
  match s.splitOn 64 with
  | [name, domain] => isAddressName name && isAddressDomain domain
  | _ => false

example : isEmailAddress (str "bo@acme.io") = true := by decide

example : isEmailAddress (str "bo@acme") = false := by decide

/-- The schema library's addresses, a rough reading of URLs, and dates that are `Date`s. -/
def roughFormats : Formats where
  isEmail := isEmailAddress
  isUrl s := s.contains 58
  newDate
    | .date time => time
    | _ => none

/-- `new Date(t.toISOString())` is `t`. -/
def ReadsBack (formats : Formats) (t : Instant) : Prop :=
  formats.newDate (.string (toISOString t)) = some t

def epoch : Instant := ⟨0, by decide⟩

/-- Formats that read the named dates back. -/
def readingBack (dates : List Instant) : Formats :=
  { roughFormats with
    newDate
      | .date time => time
      | .string s => dates.find? fun t => toISOString t == s
      | _ => none }

/-! ## Primitives -/

def text : Schema := .string fun _ => true

/-- `z.url()`: the text is trimmed, read as a URL, and answered trimmed. -/
def urlText (isUrl : JSString → Bool) : Schema :=
  .rewritten fun s => if isUrl (trim s) then some (trim s) else none

/-- `z.string().min(least).max(most)`. -/
def textBetween (least most : ℕ) : Schema :=
  .string fun s => decide (least ≤ s.length ∧ s.length ≤ most)

/-- `z.number().int().min(least).max(most)`. -/
def intBetween (least most : ℤ) : Schema :=
  .number fun x => x.toInt?.any fun z => decide (least ≤ z ∧ z ≤ most)

/-- A bounded integer is accepted exactly where it lies within its bounds. -/
theorem intBetween_parse (least most z : ℤ) :
    (intBetween least most).parse (.number (.finite (.ofInt z))) =
      if least ≤ z ∧ z ≤ most then some (.number (.finite (.ofInt z))) else none := by
  rw [intBetween, Schema.parse, Finite.toInt?_ofInt]
  by_cases h : least ≤ z ∧ z ≤ most <;> simp [h]

def nullish (inner : Schema) : Schema := .optional (.nullable inner)

def roleEnum : Schema := .enum (orgRoles.map OrgRole.name)

def planEnum : Schema := .enum registry.planKeys

/-- `[a-z0-9]`. -/
def isSlugUnit (u : UInt16) : Bool := (97 ≤ u && u ≤ 122) || (48 ≤ u && u ≤ 57)

/-- `/^[a-z0-9-]+$/`, 2 to 48 units. -/
def isProjectSlug (s : JSString) : Bool :=
  decide (2 ≤ s.length ∧ s.length ≤ 48) && s.all fun u => isSlugUnit u || u == 45

/-- `/^[a-z0-9]+(?:-[a-z0-9]+)*$/`, 2 to 48 units. -/
def isOrganizationSlug (s : JSString) : Bool :=
  decide (2 ≤ s.length ∧ s.length ≤ 48) &&
    (s.splitOn 45).all fun run => !run.isEmpty && run.all isSlugUnit

variable (formats : Formats)

def wireDate : Schema := .date formats.newDate

/-- `{ id }`: what a removal answers. -/
def idDto : Schema := .object [(str "id", text)]

def emptyInput : Schema := .object []

/-! ## Projects -/

def projectDto : Schema :=
  .object [(str "id", text), (str "name", text), (str "slug", text),
    (str "description", .nullable text), (str "archivedAt", .nullable (wireDate formats)),
    (str "createdAt", wireDate formats)]

def projectContract : Operation → Option ContractSchemas
  | .read => some
    { input := .object [(str "cursor", nullish text),
        (str "limit", .withDefault (intBetween 1 100) (.number (.finite (.ofInt 20)))),
        (str "includeArchived", .withDefault .boolean (.bool false))]
      output := .object [(str "items", .array (projectDto formats)),
        (str "nextCursor", .nullable text)]
      namesRole := rfl }
  | .create => some
    { input := .object [(str "name", textBetween 2 80), (str "slug", .string isProjectSlug),
        (str "description", .optional (textBetween 0 500))]
      output := projectDto formats
      namesRole := rfl }
  | .update => some
    { input := .object [(str "id", text), (str "name", .optional (textBetween 2 80)),
        (str "description", .optional (.nullable (textBetween 0 500))),
        (str "archived", .optional .boolean)]
      output := projectDto formats
      namesRole := rfl }
  | .delete => some
    { input := .object [(str "id", text)], output := idDto, namesRole := rfl }
  | .manage => none

/-! ## Members and invitations -/

def memberDto : Schema :=
  .object [(str "id", text), (str "userId", text), (str "name", text), (str "email", text),
    (str "role", roleEnum), (str "createdAt", wireDate formats)]

def memberContract : Operation → Option ContractSchemas
  | .read => some
    { input := emptyInput, output := .object [(str "items", .array (memberDto formats))],
      namesRole := rfl }
  | .create => some
    { input := .object [(str "email", .string formats.isEmail), (str "role", roleEnum)]
      output := .object [(str "accepted", .literal true), (str "requestId", text)]
      namesRole := rfl }
  | .update => some
    { input := .object [(str "memberId", text), (str "role", roleEnum)]
      output := memberDto formats
      namesRole := rfl }
  | .delete => some
    { input := .object [(str "memberId", text)], output := idDto, namesRole := rfl }
  | .manage => none

def invitationContract : Operation → Option ContractSchemas
  | .read => some
    { input := emptyInput
      output := .object [(str "items", .array (.object [(str "id", text), (str "email", text),
        (str "role", .nullable text), (str "status", text), (str "expiresAt", wireDate formats)]))]
      namesRole := rfl }
  | .delete => some
    { input := .object [(str "id", text)], output := idDto, namesRole := rfl }
  | _ => none

/-! ## Organisations -/

def organizationDto : Schema :=
  .object [(str "id", text), (str "name", text), (str "slug", text),
    (str "logo", .nullable text), (str "createdAt", wireDate formats),
    (str "memberCount", intBetween (-maxSafeInteger) maxSafeInteger)]

/-- At least one of the two is there. -/
def changesSomething (v : Value) : Bool :=
  let given (key : JSString) : Bool := (v.member? key).any fun w => !w.isUndefined
  given (str "name") || given (str "slug")

def organizationContract : Operation → Option ContractSchemas
  | .read => some { input := emptyInput, output := organizationDto formats, namesRole := rfl }
  | .create => some
    { input := .object [(str "name", textBetween 2 64), (str "slug", .string isOrganizationSlug)]
      output := organizationDto formats
      namesRole := rfl }
  | .update => some
    { input := .refine (.object [(str "name", .optional (textBetween 2 64)),
        (str "slug", .optional (.string isOrganizationSlug))]) changesSomething
      output := organizationDto formats
      namesRole := rfl }
  | .delete => some { input := emptyInput, output := idDto, namesRole := rfl }
  | .manage => none

def membershipContract : Operation → Option ContractSchemas
  | .delete => some { input := emptyInput, output := idDto, namesRole := rfl }
  | _ => none

/-! ## Billing and the audit log -/

def entitlementsDto : Schema :=
  .object [(str "plan", planEnum), (str "usage", .record registry.isResourceKey (.number fun _ => true))]

def billingContract : Operation → Option ContractSchemas
  | .read => some
    { input := emptyInput
      output := .object [(str "entitlements", entitlementsDto), (str "resources",
        .array (.object [(str "resource", .guarded registry.isResourceKey), (str "label", text),
          (str "usage", text)]))]
      namesRole := rfl }
  | .manage => some
    { input := .object [(str "plan", planEnum), (str "successUrl", urlText formats.isUrl)]
      output := .object [(str "url", .nullable text)]
      namesRole := rfl }
  | _ => none

def auditContract : Operation → Option ContractSchemas
  | .read => some
    { input := .object
        [(str "limit", .withDefault (intBetween 1 200) (.number (.finite (.ofInt 50)))),
          (str "resource", .optional text)]
      output := .object [(str "items", .array (.object [(str "id", text), (str "resource", text),
        (str "operation", text), (str "actorId", text), (str "actorRole", text),
        (str "outcome", text), (str "createdAt", wireDate formats)]))]
      namesRole := rfl }
  | _ => none

/-! ## The map -/

/-- `contracts`, keyed like the registry. -/
def contracts : List (ResourceKey × (Operation → Option ContractSchemas)) :=
  [(str "organization", organizationContract formats), (str "membership", membershipContract),
    (str "project", projectContract formats), (str "member", memberContract formats),
    (str "invitation", invitationContract formats), (str "billing", billingContract formats),
    (str "auditLog", auditContract formats)]

/-- `contractFor`, where there is a contract. -/
def contractFor? (resource : ResourceKey) (operation : Operation) : Option ContractSchemas :=
  ((contracts formats).lookup resource).bind fun contract => contract operation

/-- No input passes where there is no contract: reading one throws. -/
def noContract : Contract where
  input _ := none
  output _ := none
  keepsRole _ _ h := nomatch h

/-- `contractFor`. -/
def contractFor : ContractMap := fun resource operation =>
  match contractFor? formats resource operation with
  | some c => c.contract
  | none => noContract

/-- Every operation of a declared resource has a contract, and no undeclared operation has
one. -/
theorem contractFor?_isSome (resource : ResourceKey) (hresource : resource ∈ registry.resourceKeys)
    (operation : Operation) :
    (contractFor? formats resource operation).isSome =
      (registry.ruleFor resource operation).isSome := by
  have hkeys : registry.resourceKeys = [str "organization", str "membership", str "project",
    str "member", str "invitation", str "billing", str "auditLog"] := rfl
  rw [hkeys] at hresource
  simp only [List.mem_cons, List.not_mem_nil, or_false] at hresource
  rcases hresource with rfl | rfl | rfl | rfl | rfl | rfl | rfl <;> cases operation <;> rfl

end Guardrail
