import GuardrailPlatform.RequestAuthenticity
import GuardrailPlatform.SchemaCodec

/-!
# The denial channel

A refusal is computed at the gateway or in a service and shown in a browser.
On the way it is thrown, wrapped by tRPC into a cause, rebuilt by the error
formatter as a plain object, serialised, and parsed again by the component
that renders it.  This file follows it from end to end.

tRPC and superjson are named by what the platform depends on: `causeOf` is the
error that stands for a cause which is not one, and `cross` is what the client
deserialises of what the server serialised.
-/

namespace Guardrail

open Js

/-! ## The wire vocabulary -/

/-- `ERROR_CODES`. -/
def errorCodes : List ErrorCode :=
  [.unauthorized, .permissionDenied, .upgradeRequired, .noActiveOrg, .rateLimited, .notFound,
    .conflict, .invalidInput, .serviceUnavailable, .deadlineExceeded, .untrustedEnvelope, .internal]

/-- Every code is in the list the schema is made of, so none is refused for its
code. -/
theorem mem_errorCodes (code : ErrorCode) : code ∈ errorCodes := by cases code <;> decide

/-- Different codes have different names, so a code is read back from its name. -/
theorem ErrorCode.name_injective : Function.Injective ErrorCode.name := by
  intro a b h
  cases a <;> cases b <;> first | rfl | exact absurd h (by decide)

/-- `ERROR_HTTP_MAP`. -/
def errorHttpMap : ErrorCode → JSString
  | .unauthorized => str "UNAUTHORIZED"
  | .permissionDenied => str "FORBIDDEN"
  | .upgradeRequired => str "FORBIDDEN"
  | .noActiveOrg => str "FORBIDDEN"
  | .rateLimited => str "TOO_MANY_REQUESTS"
  | .notFound => str "NOT_FOUND"
  | .conflict => str "CONFLICT"
  | .invalidInput => str "BAD_REQUEST"
  | .serviceUnavailable => str "INTERNAL_SERVER_ERROR"
  | .deadlineExceeded => str "TIMEOUT"
  | .untrustedEnvelope => str "FORBIDDEN"
  | .internal => str "INTERNAL_SERVER_ERROR"

abbrev Members := List (JSString × Value)

/-- The `denial` schema, up to `decision`, which is anything at all. -/
def denialFields : List (JSString × Schema) :=
  [(str "code", .enum (errorCodes.map ErrorCode.name)), (str "message", .string fun _ => true),
    (str "retryAfterSeconds", .optional (.number fun _ => true)),
    (str "permission", .optional (.string fun _ => true))]

/-- The keys the `denial` schema names. -/
def denialKeys : List JSString := denialFields.map Prod.fst ++ [str "decision"]

/-- `denial.safeParse`.  The schema is loose: a key it does not name is kept. -/
def parseDenial (members : Members) : Option Members :=
  (parseFields denialFields members).map fun out =>
    out ++ keepMember members (str "decision") ((members.lookup (str "decision")).getD .undefined) []
      ++ members.filter fun member => !denialKeys.contains member.1

/-! ## A failure as an object -/

def Limit.toValue : Limit → Value
  | .notIncluded => .bool false
  | .unlimited => .string (str "unlimited")
  | .atMost n => .number (.finite (.ofInt n))

def DenialReason.name : DenialReason → JSString
  | .notInPlan => str "not_in_plan"
  | .limitReached => str "limit_reached"

/-- A string, or `null`. -/
def nullable : Option JSString → Value
  | none => .null
  | some s => .string s

def AccessDecision.toValue : AccessDecision → Value
  | .allowed limit remaining =>
    .object [(str "allowed", .bool true), (str "limit", limit.toValue),
      (str "remaining", match remaining with
        | none => .string (str "unlimited")
        | some n => .number (.finite (.ofInt n)))]
  | .denied reason limit used nextPlan upgradeMessage =>
    .object [(str "allowed", .bool false), (str "reason", .string reason.name),
      (str "limit", limit.toValue), (str "used", .number (.finite (.ofInt used))),
      (str "nextPlan", nullable nextPlan), (str "upgradeMessage", .string upgradeMessage)]

/-- The decision, a service's data where a service made it. -/
def UpgradeDecision.toValue : UpgradeDecision → Value
  | .gate decision => decision.toValue
  | .carried data => data.getD .undefined

namespace GatewayFailure

def code : GatewayFailure → ErrorCode
  | .coded code _ => code
  | .permissionDenied .. => .permissionDenied
  | .rateLimited .. => .rateLimited
  | .upgradeRequired .. => .upgradeRequired

def message : GatewayFailure → JSString
  | .coded _ message => message
  | .permissionDenied message _ => message
  | .rateLimited message _ => message
  | .upgradeRequired message _ => message

/-- What a failure says beside its code and its message. -/
def extra : GatewayFailure → Members
  | .coded .. => []
  | .permissionDenied _ permission => [(str "permission", .string permission)]
  | .rateLimited _ retryAfterSeconds =>
    [(str "retryAfterSeconds", .number (.finite (.ofInt retryAfterSeconds)))]
  | .upgradeRequired _ decision => [(str "decision", decision.toValue)]

/-- The failure, as the object it is. -/
def members (failure : GatewayFailure) : Members :=
  (str "code", .string failure.code.name) :: (str "message", .string failure.message) ::
    failure.extra

end GatewayFailure

/-! ## From a throw to the browser -/

/-- An error as its cause is read: its own enumerable members, and the keys `in`
finds further up. -/
structure Cause where
  own : Members
  inherited : List JSString

structure TRPCError where
  code : JSString
  message : JSString
  cause : Cause

/-- What tRPC and superjson do to a failure on its way.  Superjson throws where
it meets a key of `refused`, at any depth. -/
structure TRPC where
  causeOf : Members → Members
  cross : Value → Value
  refused : List JSString

mutual

/-- Is the value plain data, none of which superjson has a transformer for? -/
def isPlainData : Value → Bool
  | .undefined => true
  | .null => true
  | .bool _ => true
  | .number _ => true
  | .string _ => true
  | .bigint _ => false
  | .symbol => false
  | .function => false
  | .date _ => false
  | .array items => arePlainData items
  | .object members => membersArePlainData members

def arePlainData : List Value → Bool
  | [] => true
  | v :: vs => isPlainData v && arePlainData vs

def membersArePlainData : Members → Bool
  | [] => true
  | (_, v) :: ms => isPlainData v && membersArePlainData ms

end

mutual

/-- Does no object in the value have a member under one of the keys? -/
def avoids (keys : List JSString) : Value → Bool
  | .undefined => true
  | .null => true
  | .bool _ => true
  | .number _ => true
  | .string _ => true
  | .bigint _ => true
  | .symbol => true
  | .function => true
  | .date _ => true
  | .array items => allAvoid keys items
  | .object members => membersAvoid keys members

def allAvoid (keys : List JSString) : List Value → Bool
  | [] => true
  | v :: vs => avoids keys v && allAvoid keys vs

def membersAvoid (keys : List JSString) : Members → Bool
  | [] => true
  | (k, v) :: ms => !keys.contains k && avoids keys v && membersAvoid keys ms

end

/-- The keys superjson does not walk through. -/
def prototypeKeys : List JSString := [str "__proto__", str "constructor", str "prototype"]

/-- The documented behaviour: the error made of a cause that has a denial's keys
carries the cause's members, `message` apart, which `Error` may define
otherwise; plain data under no refused key crosses whole; and only what could
reach a prototype is refused. -/
structure TRPC.Documented (trpc : TRPC) : Prop where
  keeps : ∀ members, (∀ member ∈ members, member.1 ∈ denialKeys) → ∀ k, k ≠ str "message" →
    (trpc.causeOf members).lookup k = members.lookup k
  whole : ∀ v, isPlainData v = true → avoids trpc.refused v = true → trpc.cross v = v
  refuses : ∀ k ∈ trpc.refused, k ∈ prototypeKeys

/-- What a procedure throws: a `GatewayError`, or any other error. -/
inductive Thrown
  | gateway (failure : GatewayFailure)
  | other (error : Cause) (message : JSString)

/-- `toTRPC`, and tRPC's own wrapping of what it lets through. -/
def toTRPC (trpc : TRPC) : Thrown → TRPCError
  | .gateway failure =>
    { code := errorHttpMap failure.code, message := failure.message,
      cause := { own := trpc.causeOf failure.members, inherited := [] } }
  | .other error message => { code := str "INTERNAL_SERVER_ERROR", message, cause := error }

/-- `{...members, key: value}`. -/
def setMember (key : JSString) (value : Value) : Members → Members
  | [] => [(key, value)]
  | (k, v) :: members =>
    if k = key then (key, value) :: members else (k, v) :: setMember key value members

/-- `appFailure`: the structured failure, as a plain object. -/
def appFailure (cause : Cause) (message : JSString) : Option Members :=
  if (cause.own.lookup (str "code")).isSome || cause.inherited.contains (str "code") then
    parseDenial (setMember (str "message") (.string message) cause.own)
  else none

/-- The error a client component is given. -/
structure DenialError where
  code : JSString
  message : JSString
  app : Value

/-- `errorFormatter`, the wire and the client's link. -/
def receive (trpc : TRPC) (error : TRPCError) : DenialError :=
  { code := error.code, message := error.message,
    app := match appFailure error.cause error.message with
      | none => trpc.cross .null
      | some members => trpc.cross (.object members) }

/-- `denialOf`. -/
def denialOf (error : DenialError) : Option Members := error.app.members?.bind parseDenial

/-- What the browser gets of a throw. -/
def thrownToBrowser (trpc : TRPC) (thrown : Thrown) : DenialError := receive trpc (toTRPC trpc thrown)

/-! ## One schema at both ends -/

/-- The schema names each of its keys once, so what is read under a key is one field's. -/
theorem denialKeys_nodup : denialKeys.Nodup := by decide

/-- A field of the denial's schema takes back whatever it gave, unchanged. -/
theorem denialFields_again : ∀ field ∈ denialFields, ∀ v w, field.2.parse v = some w →
    field.2.parse w = some w := by
  have htext : ∀ v w, (Schema.string fun _ => true).parse v = some w →
      (Schema.string fun _ => true).parse w = some w := by
    intro v w h
    obtain ⟨s, -, h⟩ := Option.bind_eq_some_iff.mp h
    obtain rfl := Option.some.inj h
    rfl
  simp only [denialFields, List.forall_mem_cons]
  refine ⟨?_, htext, ?_, ?_, by simp⟩
  · intro v w h
    obtain ⟨s, -, h⟩ := Option.bind_eq_some_iff.mp h
    obtain ⟨hmem, h⟩ := Option.ite_none_right_eq_some.mp h
    obtain rfl := Option.some.inj h
    rw [Schema.parse]
    exact if_pos hmem
  · intro v w h
    rw [Schema.parse] at h
    split at h
    · obtain rfl := Option.some.inj h
      rfl
    · rcases v with _ | _ | _ | (_ | _ | x) | _ | _ | _ | _ | _ | _ | _
      case number.finite =>
        obtain rfl := Option.some.inj h
        rfl
      all_goals cases h
  · intro v w h
    rw [Schema.parse] at h
    split at h
    · obtain rfl := Option.some.inj h
      rfl
    · have hw := htext v w h
      obtain ⟨s, -, h⟩ := Option.bind_eq_some_iff.mp h
      obtain rfl := Option.some.inj h
      rfl

/-- A key leads to what it does in front, and else to what it does behind. -/
theorem lookup_append {γ : Type} (front back : List (JSString × γ)) (k : JSString) :
    (front ++ back).lookup k = (front.lookup k).or (back.lookup k) := by
  induction front with
  | nil => rfl
  | cons entry front ih =>
      rw [List.cons_append, List.lookup_cons, List.lookup_cons]
      split
      · rfl
      · exact ih

/-- A key that is not among the keys of the entries leads to none of them. -/
theorem lookup_eq_none_of_keys {γ : Type} {entries : List (JSString × γ)} {k : JSString}
    (h : ∀ entry ∈ entries, entry.1 ≠ k) : entries.lookup k = none := by
  by_contra hsome
  obtain ⟨v, hv⟩ := Option.ne_none_iff_exists'.mp hsome
  exact h _ (mem_of_lookup hv) rfl

/-- What keeping a decision puts into a denial is the decision, or nothing where there is
none. -/
theorem mem_decision {members : Members} {v : Value} :
    ∀ member ∈ keepMember members (str "decision") v [], member = (str "decision", v) := by
  intro member hmember
  unfold keepMember at hmember
  split at hmember
  · cases hmember
  · exact List.mem_singleton.mp hmember

theorem mem_unnamed {members : Members} :
    ∀ member ∈ members.filter (fun member => !denialKeys.contains member.1),
      member.1 ∉ denialKeys := by
  intro member hmember
  simpa using (List.mem_filter.mp hmember).2

/-- **The two ends agree.**  What the schema has parsed, it parses again, to
the same: the browser reads what the formatter typed. -/
theorem parseDenial_again {members out : Members} (h : parseDenial members = some out) :
    parseDenial out = some out := by
  obtain ⟨fields, hfields, rfl⟩ := Option.map_eq_some_iff.mp h
  set decision := keepMember members (str "decision")
    ((members.lookup (str "decision")).getD .undefined) [] with hdecision
  set rest := members.filter fun member => !denialKeys.contains member.1 with hrest
  have hnamed : ∀ member ∈ fields, member.1 ∈ denialFields.map Prod.fst := by
    intro member hmember
    obtain ⟨schema, hfield, -⟩ := field_of_mem_parse hfields hmember
    exact List.mem_map_of_mem (f := Prod.fst) hfield
  have hkeys : denialKeys = denialFields.map Prod.fst ++ [str "decision"] := rfl
  have hnodup := List.nodup_append.mp (hkeys ▸ denialKeys_nodup)
  have hfieldsDecision : fields.lookup (str "decision") = none :=
    lookup_eq_none_of_keys fun member hmember hkey =>
      hnodup.2.2 _ (hkey ▸ hnamed member hmember) _ (List.mem_singleton_self _) rfl
  have hrestNone : ∀ k ∈ denialKeys, rest.lookup k = none := fun k hk =>
    lookup_eq_none_of_keys fun member hmember hkey => mem_unnamed member hmember (hkey ▸ hk)
  have hlookup : ∀ field ∈ denialFields,
      (fields ++ decision ++ rest).lookup field.1 = (fields.lookup field.1).map id := by
    intro field hfield
    have hmem : field.1 ∈ denialFields.map Prod.fst := List.mem_map_of_mem (f := Prod.fst) hfield
    have hnone : decision.lookup field.1 = none := by
      refine lookup_eq_none_of_keys fun member hmember hkey => ?_
      rw [mem_decision member hmember] at hkey
      exact hnodup.2.2 _ hmem _ (List.mem_singleton_self _) hkey.symm
    rw [lookup_append, lookup_append, hnone, hrestNone _ (hkeys ▸ List.mem_append_left _ hmem),
      Option.or_none, Option.or_none, Option.map_id, id]
  have hagain : parseFields denialFields (fields ++ decision ++ rest) = some fields := by
    have hmap := parseFields_again (f := id) (g := id) (fun _ => rfl) hnodup.1 hfields hlookup
      fun field hfield v hv _ => denialFields_again field hfield _ v hv
    simpa using hmap
  have hsame : (fields ++ decision ++ rest).lookup (str "decision") =
      decision.lookup (str "decision") := by
    rw [lookup_append, lookup_append, hfieldsDecision, Option.none_or,
      hrestNone _ (by decide), Option.or_none]
  have hkept : keepMember (fields ++ decision ++ rest) (str "decision")
      (((fields ++ decision ++ rest).lookup (str "decision")).getD .undefined) [] = decision := by
    rw [hsame, keepMember, hsame]
    by_cases hdropped : ((members.lookup (str "decision")).getD .undefined).isUndefined &&
        (members.lookup (str "decision")).isNone
    · have hempty : decision = [] := by rw [hdecision, keepMember, if_pos hdropped]
      rw [hempty]
      rfl
    · have hone : decision = [(str "decision", (members.lookup (str "decision")).getD .undefined)] := by
        rw [hdecision, keepMember, if_neg hdropped]
      rw [hone, List.lookup_cons_self]
      simp
  have hfilter : (fields ++ decision ++ rest).filter (fun member => !denialKeys.contains member.1) =
      rest := by
    have hfieldsGone : fields.filter (fun member => !denialKeys.contains member.1) = [] := by
      refine List.filter_eq_nil_iff.mpr fun member hmember => ?_
      have := hkeys ▸ List.mem_append_left [str "decision"] (hnamed member hmember)
      simpa using this
    have hdecisionGone : decision.filter (fun member => !denialKeys.contains member.1) = [] := by
      refine List.filter_eq_nil_iff.mpr fun member hmember => ?_
      rw [mem_decision member hmember, show denialKeys.contains (str "decision") = true by decide]
      decide
    rw [List.filter_append, List.filter_append, hfieldsGone, hdecisionGone, hrest,
      List.filter_filter]
    simp
  rw [parseDenial, hagain, Option.map_some, hkept, hfilter]

/-! ## Failures of `dispatch` -/

/-- Setting a member changes what its key leads to, and no other. -/
theorem lookup_setMember (key : JSString) (value : Value) (members : Members) (k : JSString) :
    (setMember key value members).lookup k = if k = key then some value else members.lookup k := by
  induction members with
  | nil =>
      by_cases hk : k = key
      · rw [setMember, hk, List.lookup_cons_self, if_pos rfl]
      · rw [setMember, List.lookup_cons, beq_false_of_ne hk, if_neg hk]
  | cons member members ih =>
      obtain ⟨k', v⟩ := member
      rw [setMember]
      by_cases hhere : k' = key
      · rw [if_pos hhere, hhere, List.lookup_cons, List.lookup_cons]
        by_cases hk : k = key
        · rw [hk, beq_self_eq_true, if_pos rfl]
        · rw [beq_false_of_ne hk, if_neg hk]
      · rw [if_neg hhere, List.lookup_cons, List.lookup_cons, ih]
        by_cases hk : k = k'
        · rw [hk, beq_self_eq_true, if_neg hhere, if_neg hhere]
        · rw [beq_false_of_ne hk]

/-- What is parsed depends on what the keys lead to, not on the members' order. -/
theorem parseFields_congr {members members' : Members} (h : ∀ k, members.lookup k = members'.lookup k)
    (fields : List (JSString × Schema)) : parseFields fields members = parseFields fields members' := by
  induction fields with
  | nil => rfl
  | cons field fields ih =>
      obtain ⟨k, schema⟩ := field
      have hkeep : ∀ v, keepMember members k v = keepMember members' k v := by
        intro v
        funext out
        rw [keepMember, keepMember, h]
      rw [parseFields, parseFields, h, ih]
      simp only [hkeep]

/-- An object whose keys the schema all names is parsed by what they lead to. -/
theorem parseDenial_congr {members members' : Members}
    (h : ∀ k, members.lookup k = members'.lookup k)
    (hknown : ∀ member ∈ members', member.1 ∈ denialKeys) :
    parseDenial members = parseDenial members' := by
  have hfilter : ∀ ms : Members, (∀ member ∈ ms, member.1 ∈ denialKeys) →
      ms.filter (fun member => !denialKeys.contains member.1) = [] := by
    intro ms hms
    refine List.filter_eq_nil_iff.mpr fun member hmember => ?_
    simpa using hms member hmember
  have hknown' : ∀ member ∈ members, member.1 ∈ denialKeys := by
    intro member hmember
    by_contra hunknown
    have hnone : members.lookup member.1 = none := by
      rw [h]
      exact lookup_eq_none_of_keys fun other hother hkey => hunknown (hkey ▸ hknown other hother)
    have habsent := List.lookup_eq_none_iff.mp hnone member hmember
    simp at habsent
  rw [parseDenial, parseDenial, parseFields_congr h, hfilter _ hknown, hfilter _ hknown', h]
  simp only [keepMember, h]

namespace GatewayFailure

/-- A failure as an object has the keys of a denial and no others. -/
theorem members_known (failure : GatewayFailure) : ∀ member ∈ failure.members,
    member.1 ∈ denialKeys := by
  have hcode : str "code" ∈ denialKeys := by decide
  have hmessage : str "message" ∈ denialKeys := by decide
  have hextra : ∀ member ∈ failure.extra, member.1 ∈ denialKeys := by
    cases failure with
    | coded => simp [extra]
    | permissionDenied =>
        simp only [extra, List.forall_mem_singleton]
        decide
    | rateLimited =>
        simp only [extra, List.forall_mem_singleton]
        decide
    | upgradeRequired =>
        simp only [extra, List.forall_mem_singleton]
        decide
  simp only [members, List.forall_mem_cons]
  exact ⟨hcode, hmessage, hextra⟩

/-- The fields of an object whose keys lead to what a denial has. -/
theorem parseFields_denial {members : Members} {code : ErrorCode} {message : JSString}
    {retryAfterSeconds : Option Finite} {permission : Option JSString}
    (hcode : members.lookup (str "code") = some (.string code.name))
    (hmessage : members.lookup (str "message") = some (.string message))
    (hretry : members.lookup (str "retryAfterSeconds") =
      retryAfterSeconds.map fun x => .number (.finite x))
    (hpermission : members.lookup (str "permission") = permission.map .string) :
    parseFields denialFields members = some ((str "code", .string code.name) ::
      (str "message", .string message) ::
      ((retryAfterSeconds.map fun x => (str "retryAfterSeconds", .number (.finite x))).toList ++
        (permission.map fun s => (str "permission", .string s)).toList)) := by
  have hname : code.name ∈ errorCodes.map ErrorCode.name := List.mem_map_of_mem (mem_errorCodes _)
  rw [denialFields, parseFields, parseFields, parseFields, parseFields, parseFields, hcode, hmessage,
    hretry, hpermission]
  have henum : (Schema.enum (errorCodes.map ErrorCode.name)).parse (.string code.name) =
      some (.string code.name) := by
    rw [Schema.parse, Value.string?, Option.bind_some, if_pos hname]
  rw [Option.getD_some, henum]
  cases retryAfterSeconds <;> cases permission <;>
    simp [Schema.parse, Value.string?, Value.isUndefined, keepMember, hcode, hmessage, hretry,
      hpermission]

/-- The schema of a denial accepts what every failure of the gateway shows, and changes
nothing of it. -/
theorem parseDenial_members (failure : GatewayFailure) :
    parseDenial failure.members = some failure.members := by
  have hfilter : failure.members.filter (fun member => !denialKeys.contains member.1) = [] := by
    refine List.filter_eq_nil_iff.mpr fun member hmember => ?_
    simpa using failure.members_known member hmember
  rw [parseDenial, hfilter]
  cases failure with
  | coded code message =>
      rw [@parseFields_denial _ code message none none rfl rfl rfl rfl]
      rfl
  | permissionDenied message permission =>
      rw [@parseFields_denial _ .permissionDenied message none (some permission) rfl rfl rfl rfl]
      rfl
  | rateLimited message seconds =>
      rw [@parseFields_denial _ .rateLimited message (some (.ofInt seconds)) none rfl rfl rfl rfl]
      rfl
  | upgradeRequired message decision =>
      rw [@parseFields_denial _ .upgradeRequired message none none rfl rfl rfl rfl]
      have hdecision : (upgradeRequired message decision).members.lookup (str "decision") =
          some decision.toValue := rfl
      simp only [keepMember, hdecision, Option.isNone_some, Bool.and_false, Bool.false_eq_true,
        if_false, Option.map_some]
      rfl

end GatewayFailure

/-! ## The channel -/

theorem isPlainData_toValue (j : Json) : isPlainData j.toValue = true := by
  induction j using Json.ind with
  | null => rfl
  | bool => rfl
  | number => rfl
  | string => rfl
  | array items ih =>
      rw [Json.toValue, isPlainData]
      induction items with
      | nil => rfl
      | cons j js ihs =>
          rw [Json.toValues, arePlainData, ih j List.mem_cons_self,
            ihs fun j hj => ih j (List.mem_cons_of_mem _ hj)]
          rfl
  | object members ih =>
      rw [Json.toValue, isPlainData]
      induction members with
      | nil => rfl
      | cons m ms ihs =>
          obtain ⟨k, j⟩ := m
          rw [Json.toMembers, membersArePlainData, ih (k, j) List.mem_cons_self,
            ihs fun m hm => ih m (List.mem_cons_of_mem _ hm)]
          rfl

theorem isPlainData_decision (decision : AccessDecision) : isPlainData decision.toValue = true := by
  have hlimit : ∀ limit : Limit, isPlainData limit.toValue = true := by
    intro limit
    cases limit <;> rfl
  cases decision with
  | allowed limit remaining =>
      cases remaining <;> simp [AccessDecision.toValue, isPlainData, membersArePlainData, hlimit]
  | denied reason limit used nextPlan upgradeMessage =>
      cases nextPlan <;>
        simp [AccessDecision.toValue, isPlainData, membersArePlainData, hlimit, nullable]

/-- Keys that reach no prototype are not among those that superjson refuses to carry. -/
theorem TRPC.Documented.allows {trpc : TRPC} (hdocumented : trpc.Documented) {k : JSString}
    (hk : k ∉ prototypeKeys) : k ∉ trpc.refused :=
  fun hrefused => hk (hdocumented.refuses k hrefused)

/-- The gateway's own decisions cross: each of their keys is an ordinary one. -/
theorem avoids_decision {trpc : TRPC} (hdocumented : trpc.Documented) (decision : AccessDecision) :
    avoids trpc.refused decision.toValue = true := by
  have hlimit : ∀ limit : Limit, avoids trpc.refused limit.toValue = true := by
    intro limit
    cases limit <;> rfl
  have hallowed := hdocumented.allows (show str "allowed" ∉ prototypeKeys by decide)
  have hname := hdocumented.allows (show str "limit" ∉ prototypeKeys by decide)
  cases decision with
  | allowed limit remaining =>
      have hremaining := hdocumented.allows (show str "remaining" ∉ prototypeKeys by decide)
      cases remaining <;>
        simp [AccessDecision.toValue, avoids, membersAvoid, hlimit, hallowed, hname, hremaining]
  | denied reason limit used nextPlan upgradeMessage =>
      have hreason := hdocumented.allows (show str "reason" ∉ prototypeKeys by decide)
      have hused := hdocumented.allows (show str "used" ∉ prototypeKeys by decide)
      have hnext := hdocumented.allows (show str "nextPlan" ∉ prototypeKeys by decide)
      have hmessage := hdocumented.allows (show str "upgradeMessage" ∉ prototypeKeys by decide)
      cases nextPlan <;>
        simp [AccessDecision.toValue, avoids, membersAvoid, hlimit, hallowed, hname, hreason, hused,
          hnext, hmessage, nullable]

namespace GatewayFailure

/-- Is everything a failure says plain data? -/
def isPlain (failure : GatewayFailure) : Bool := isPlainData (.object failure.members)

/-- What a service sent with the refusal that the failure tells of. -/
def carried : GatewayFailure → Option Value
  | .upgradeRequired _ (.carried data) => data
  | _ => none

/-- Does superjson serialise what a service sent? -/
def Crosses (trpc : TRPC) (failure : GatewayFailure) : Prop :=
  ∀ data, failure.carried = some data → avoids trpc.refused data = true

/-- Only what a service sent can keep a failure from crossing: the keys of the
failure itself are a denial's. -/
theorem Crosses.avoids_members {trpc : TRPC} (hdocumented : trpc.Documented)
    {failure : GatewayFailure} (hcrosses : failure.Crosses trpc) :
    avoids trpc.refused (.object failure.members) = true := by
  have hcode := hdocumented.allows (show str "code" ∉ prototypeKeys by decide)
  have hmessage := hdocumented.allows (show str "message" ∉ prototypeKeys by decide)
  cases failure with
  | coded => simp [members, extra, avoids, membersAvoid, hcode, hmessage]
  | permissionDenied =>
      have hkey := hdocumented.allows (show str "permission" ∉ prototypeKeys by decide)
      simp [members, extra, avoids, membersAvoid, hcode, hmessage, hkey]
  | rateLimited =>
      have hkey := hdocumented.allows (show str "retryAfterSeconds" ∉ prototypeKeys by decide)
      simp [members, extra, avoids, membersAvoid, hcode, hmessage, hkey]
  | upgradeRequired message decision =>
      have hkey := hdocumented.allows (show str "decision" ∉ prototypeKeys by decide)
      have hdecision : avoids trpc.refused decision.toValue = true := by
        cases decision with
        | gate decision => exact avoids_decision hdocumented decision
        | carried data =>
            cases data with
            | none => rfl
            | some data => exact hcrosses data rfl
      simp [members, extra, avoids, membersAvoid, hcode, hmessage, hkey, hdecision]

end GatewayFailure

/-- The failures of the source's type: its three special codes come with what they carry. -/
inductive Admissible : GatewayFailure → Prop
  | coded {code : ErrorCode} {message : JSString}
      (hcode : code ∉ [.upgradeRequired, .rateLimited, .permissionDenied]) :
      Admissible (.coded code message)
  | permissionDenied {message permission : JSString} :
      Admissible (.permissionDenied message permission)
  | rateLimited {message : JSString} {seconds : ℤ} : Admissible (.rateLimited message seconds)
  | gate {message : JSString} {decision : AccessDecision} :
      Admissible (.upgradeRequired message (.gate decision))
  | carried {message : JSString} {data : Option Value}
      (hdata : isPlainData (data.getD .undefined) = true) :
      Admissible (.upgradeRequired message (.carried data))

/-- What `dispatch` throws is plain data from end to end, its data included. -/
theorem isPlain_of_admissible {failure : GatewayFailure} (h : Admissible failure) :
    failure.isPlain = true := by
  cases h with
  | coded => rfl
  | permissionDenied => rfl
  | rateLimited => rfl
  | @gate message decision =>
      simp [GatewayFailure.isPlain, GatewayFailure.members, GatewayFailure.extra, isPlainData,
        membersArePlainData, UpgradeDecision.toValue, isPlainData_decision]
  | carried hdata =>
      simp [GatewayFailure.isPlain, GatewayFailure.members, GatewayFailure.extra, isPlainData,
        membersArePlainData, UpgradeDecision.toValue, hdata]

/-- An error whose data JSON can hold becomes a failure of the source's own type. -/
theorem admissible_toFailure {error : WireError} (h : ∀ data, error.data = some data →
    isPlainData data = true) : Admissible (toFailure error) := by
  unfold toFailure
  split
  · refine .carried ?_
    cases hdata : error.data with
    | none => rfl
    | some data => exact h data hdata
  · split
    · exact .permissionDenied
    · split
      · rename_i code hfound
        refine .coded fun hspecial => ?_
        have hmem := List.mem_of_find?_eq_some hfound
        revert hmem hspecial
        cases code <;> decide
      · exact .coded (by decide)

/-- **The channel keeps a failure.**  What the browser parses of a plain failure
that superjson serialises is the failure. -/
theorem denialOf_thrown {trpc : TRPC} (hdocumented : trpc.Documented) {failure : GatewayFailure}
    (hplain : failure.isPlain = true)
    (havoids : avoids trpc.refused (.object failure.members) = true) :
    denialOf (thrownToBrowser trpc (.gateway failure)) = some failure.members := by
  have hlookup : ∀ k, (setMember (str "message") (.string failure.message)
      (trpc.causeOf failure.members)).lookup k = failure.members.lookup k := by
    intro k
    rw [lookup_setMember]
    by_cases hk : k = str "message"
    · rw [if_pos hk, hk]
      rfl
    · rw [if_neg hk]
      exact hdocumented.keeps _ failure.members_known k hk
  have hcode : (trpc.causeOf failure.members).lookup (str "code") =
      some (.string failure.code.name) := by
    rw [hdocumented.keeps _ failure.members_known _ (by decide)]
    rfl
  have happ : appFailure { own := trpc.causeOf failure.members, inherited := [] } failure.message =
      some failure.members := by
    rw [appFailure, hcode, if_pos (by simp), parseDenial_congr hlookup failure.members_known,
      failure.parseDenial_members]
  rw [thrownToBrowser, toTRPC, receive, denialOf]
  simp only [happ]
  rw [hdocumented.whole _ hplain havoids]
  exact failure.parseDenial_members

/-! ## What `dispatch` throws -/

section Dispatch

variable {crypto : Crypto} {secret : JSString} {reg : Registry} {contracts : ContractMap}

/-- A failure `dispatch` throws, from any call, session, plan and message that came back. -/
inductive Fails (crypto : Crypto) (secret : JSString) (reg : Registry) (contracts : ContractMap) :
    GatewayFailure → Prop
  | refused {args : DispatchArgs} {deps : DepsAnswers} {failure : GatewayFailure}
      (h : prepare crypto secret reg contracts args deps = .error (.failed failure)) :
      Fails crypto secret reg contracts failure
  | answered {contract : Contract} {owner : ServiceName} {subject : JSString} {e : Envelope}
      {response : Response} {failure : GatewayFailure}
      (h : conclude crypto secret contract owner subject e response = .error (.failed failure)) :
      Fails crypto secret reg contracts failure

/-- The plan gate throws a decision of its own under its own code. -/
theorem admissible_planGate {resource : ResourceKey} {rule : OperationRule}
    {entitlements : Entitlements} {failure : GatewayFailure}
    (h : planGate reg resource rule entitlements = some failure) : Admissible failure := by
  unfold planGate at h
  split at h
  · split at h
    · cases h
    · obtain rfl := Option.some.inj h
      exact .gate
  · cases h

/-- What the gateway itself refuses, gate by gate, is a failure of the source's type. -/
theorem admissible_of_prepare {args : DispatchArgs} {deps : DepsAnswers} {failure : GatewayFailure}
    (h : prepare crypto secret reg contracts args deps = .error (.failed failure)) :
    Admissible failure := by
  unfold prepare at h
  split at h
  · cases h
  · split at h
    · obtain rfl := DispatchError.failed.inj (Except.error.inj h)
      exact .coded (by decide)
    · split at h
      · obtain rfl := DispatchError.failed.inj (Except.error.inj h)
        exact .coded (by decide)
      · split at h
        · obtain rfl := DispatchError.failed.inj (Except.error.inj h)
          exact .permissionDenied
        · split at h
          · obtain rfl := DispatchError.failed.inj (Except.error.inj h)
            exact .permissionDenied
          · split at h
            · obtain rfl := DispatchError.failed.inj (Except.error.inj h)
              exact .permissionDenied
            · split at h
              · obtain rfl := DispatchError.failed.inj (Except.error.inj h)
                exact .rateLimited
              · split at h
                · rename_i failure' hplan
                  obtain rfl := DispatchError.failed.inj (Except.error.inj h)
                  exact admissible_planGate hplan
                · split at h
                  · cases h
                  · dsimp only at h
                    split at h <;> cases h

/-- An error that was parsed off the wire holds what JSON can. -/
theorem isPlainData_of_parseReply {raw : Json} {requestId signature : JSString} {error : WireError}
    (h : parseReply raw = some (.refused requestId signature error)) :
    ∀ data, error.data = some data → isPlainData data = true := by
  unfold parseReply at h
  split at h
  · obtain ⟨_, -, h⟩ := Option.bind_eq_some_iff.mp h
    obtain ⟨_, -, h⟩ := Option.bind_eq_some_iff.mp h
    cases h
  · obtain ⟨_, -, h⟩ := Option.bind_eq_some_iff.mp h
    obtain ⟨_, -, h⟩ := Option.bind_eq_some_iff.mp h
    obtain ⟨error', herror, h⟩ := Option.bind_eq_some_iff.mp h
    obtain ⟨-, -, rfl⟩ := ReplyEnvelope.refused.inj (Option.some.inj h)
    obtain ⟨item, -, hparse⟩ := Option.bind_eq_some_iff.mp herror
    obtain ⟨_, -, hparse⟩ := Option.bind_eq_some_iff.mp hparse
    obtain ⟨_, -, hparse⟩ := Option.bind_eq_some_iff.mp hparse
    obtain rfl := Option.some.inj hparse
    intro data hdata
    obtain ⟨j, -, rfl⟩ := Option.map_eq_some_iff.mp hdata
    exact isPlainData_toValue j
  · cases h

/-- An error that the transport makes itself carries no data; only a service's own may. -/
theorem rpcRequest_data {subject : JSString} {e : Envelope} {raw : Json} {error : ServiceError}
    (h : rpcRequest crypto secret subject e raw = .error error) : error.data = none := by
  unfold rpcRequest at h
  split at h
  · obtain rfl := Except.error.inj h
    rfl
  · split at h
    · obtain rfl := Except.error.inj h
      rfl
    · split at h
      · obtain rfl := Except.error.inj h
        rfl
      · cases h

/-- A reply that does not prove itself is refused under a plain code. -/
theorem admissible_proveAnswer {e : Envelope} {reply : ReplyEnvelope} {failure : GatewayFailure}
    (h : proveAnswer crypto secret e reply = some failure) : Admissible failure := by
  unfold proveAnswer at h
  split at h
  · obtain rfl := Option.some.inj h
    exact .coded (by decide)
  · split at h
    · obtain rfl := Option.some.inj h
      exact .coded (by decide)
    · cases h

/-- **Every failure of `dispatch`**, whichever of its ways it came, is one of the source's
type. -/
theorem admissible_of_fails {failure : GatewayFailure}
    (h : Fails crypto secret reg contracts failure) : Admissible failure := by
  cases h with
  | refused h => exact admissible_of_prepare h
  | @answered contract owner subject e response _ h =>
      cases response with
      | failed =>
          obtain rfl := DispatchError.failed.inj (Except.error.inj h)
          exact .coded (by decide)
      | message raw =>
          rw [conclude] at h
          split at h
          · rename_i error herror
            obtain rfl := DispatchError.failed.inj (Except.error.inj h)
            refine admissible_toFailure fun data hdata => ?_
            rw [ServiceError.toWire, rpcRequest_data herror] at hdata
            cases hdata
          · rename_i reply hreply
            split at h
            · rename_i failure' hprove
              obtain rfl := DispatchError.failed.inj (Except.error.inj h)
              exact admissible_proveAnswer hprove
            · split at h
              · obtain rfl := DispatchError.failed.inj (Except.error.inj h)
                obtain ⟨hparse, -⟩ := rpcRequest_ok.mp hreply
                exact admissible_toFailure (isPlainData_of_parseReply hparse)
              · split at h <;> cases h

/-- **The denial channel.**  Whatever structured failure `dispatch` throws, the
browser parses it back whole, under the failure's own message and the HTTP code
of its error code, unless a service sent data along that superjson refuses.  Of
any other error made of plain data the browser reads exactly what the formatter
typed: the two ends share one schema. -/
theorem denials_reach_browser {trpc : TRPC} (hdocumented : trpc.Documented) :
    (∀ failure, Fails crypto secret reg contracts failure → failure.Crosses trpc →
      denialOf (thrownToBrowser trpc (.gateway failure)) = some failure.members ∧
      (thrownToBrowser trpc (.gateway failure)).code = errorHttpMap failure.code ∧
      (thrownToBrowser trpc (.gateway failure)).message = failure.message) ∧
    ∀ error message, (∀ members, appFailure error message = some members →
        isPlainData (.object members) = true ∧ avoids trpc.refused (.object members) = true) →
      denialOf (thrownToBrowser trpc (.other error message)) = appFailure error message := by
  refine ⟨fun failure hfails hcrosses => ⟨?_, rfl, rfl⟩, ?_⟩
  · exact denialOf_thrown hdocumented (isPlain_of_admissible (admissible_of_fails hfails))
      (hcrosses.avoids_members hdocumented)
  · intro error message hplain
    rw [thrownToBrowser, toTRPC, receive, denialOf]
    cases happ : appFailure error message with
    | none =>
        dsimp only
        rw [hdocumented.whole _ rfl rfl]
        rfl
    | some members =>
        dsimp only
        rw [hdocumented.whole _ (hplain members happ).1 (hplain members happ).2]
        unfold appFailure at happ
        split at happ
        · exact parseDenial_again happ
        · cases happ

/-! ## What becomes of a service's refusal -/

/-- The code a service's refusal keeps on its way: all but one. -/
def survivingCode : ErrorCode → ErrorCode
  | .rateLimited => .internal
  | code => code

/-- What is shown of a service's refusal: its data where it asks for an
upgrade, and no permission where it denies one. -/
def shownOf (error : ServiceError) : Members :=
  [(str "code", .string (survivingCode error.code).name), (str "message", .string error.message)] ++
    match error.code with
    | .upgradeRequired =>
      [(str "decision", match error.data with
        | none => .undefined
        | some data => data.decoded)]
    | .permissionDenied => [(str "permission", .string [])]
    | _ => []

/-- The object of a failure that a service's error was made into. -/
theorem members_toFailure (code : ErrorCode) (message : JSString) (data : Option Value) :
    (toFailure { code := code.name, message, data }).members =
      [(str "code", .string (survivingCode code).name), (str "message", .string message)] ++
        match code with
        | .upgradeRequired => [(str "decision", data.getD .undefined)]
        | .permissionDenied => [(str "permission", .string [])]
        | _ => [] := by
  cases code <;> rfl

/-- An error is determined by the object it is sent as, its data included. -/
theorem WireError.toValue_injective : Function.Injective WireError.toValue := by
  rintro ⟨code, message, data⟩ ⟨code', message', data'⟩ h
  have hmembers := Value.object.inj h
  cases data <;> cases data' <;> simp_all

/-- What arrives of an error has its code's name and its message, and its data as JSON has
carried it. -/
theorem wireError_arrives {error : ServiceError} {p : Json} {received : WireError}
    (hproject : project error.toWire.toValue = .json p) (hreceived : received.toValue = p.toValue) :
    received = { code := error.code.name, message := error.message,
                 data := error.data.bind fun data => match project data with
                   | .json j => some j.toValue
                   | _ => none } := by
  apply WireError.toValue_injective
  rw [hreceived]
  obtain ⟨code, message, data⟩ := error
  cases data with
  | none =>
      obtain rfl := Serialized.json.inj hproject
      rfl
  | some d =>
      cases hd : project d with
      | throws =>
          simp only [ServiceError.toWire, WireError.toValue, Option.map_some, Option.toList_some,
            List.cons_append, List.nil_append, project, projectMembers, hd, reduceCtorEq] at hproject
      | omitted =>
          simp only [ServiceError.toWire, WireError.toValue, Option.map_some, Option.toList_some,
            List.cons_append, List.nil_append, project, projectMembers, hd] at hproject
          obtain rfl := Serialized.json.inj hproject
          simp only [Option.bind_some, hd]
          rfl
      | json j =>
          simp only [ServiceError.toWire, WireError.toValue, Option.map_some, Option.toList_some,
            List.cons_append, List.nil_append, project, projectMembers, hd] at hproject
          obtain rfl := Serialized.json.inj hproject
          simp only [Option.bind_some, hd]
          rfl

/-- The refusal of an error that can be signed is the reply `handle` sends. -/
theorem settle_refused {route : ServiceRoute} {m : RequestMeta} {error : ServiceError}
    {text : JSString} (published : Bool) (htext : canonicalJson error.toWire.toValue = some text) :
    ∃ signature, (settle crypto secret route m (.refused error) published).reply =
      some (.refused m.requestId signature error.toWire) := by
  obtain ⟨reply, hreply⟩ := @reject_isSome crypto secret m.replyRoute error.toWire text htext
  obtain ⟨signature, rfl, -⟩ := reject_eq_some.mp hreply
  exact ⟨signature, hreply⟩

/-- **A service's refusal, end to end.**  Whatever coded error the handler of an
honest call throws on being given that call, as long as it can be signed and
superjson refuses nothing of what is shown, the caller's browser reads its
message and its code (RATE_LIMITED alone becomes INTERNAL), an upgrade's data as
JSON carried it, and nothing else of the error. -/
theorem service_refusals_reach_browser {trpc : TRPC} (hdocumented : trpc.Documented)
    {Effect : Type} {args : DispatchArgs} {deps : DepsAnswers} {e : Envelope} {rule : OperationRule}
    {service : ServiceName} {handlers : List (HandlerEntry Effect)}
    {rt : ServiceRuntime reg Effect} {t now : ℤ}
    {execute : HandlerEntry Effect → ServiceContext → Value → Execution} {error : ServiceError}
    {text : JSString} (hcall : HonestCall crypto secret reg contracts args deps e)
    (hsafe : ClocksSafe e) (hrule : reg.ruleFor args.resource args.operation = some rule)
    (hrpc : rule.transport = .rpc) (hpositive : 0 < rule.timeoutMs)
    (howner : reg.ownerOf args.resource = some service)
    (hboot : defineService reg service handlers = .ok rt) (harrives : Arrives e .rpc t now)
    (hrefuses : ∀ entry p, entry.resource = args.resource → entry.operation = args.operation →
      project e.payload = .json p →
        execute entry (contextOf e.requestMeta) p.toValue = .refused error)
    (htext : canonicalJson error.toWire.toValue = some text)
    (havoids : avoids trpc.refused (.object (shownOf error)) = true) (published : Bool) :
    ∃ raw reply sent failure, encode e.toValue = some raw ∧
      (handle crypto secret rt raw (rpcSubject args.resource args.operation) now execute
        published).reply = some reply ∧
      encode reply.toValue = some sent ∧
      conclude crypto secret (contracts args.resource args.operation) service
        (rpcSubject args.resource args.operation) e (.message sent) = .error (.failed failure) ∧
      denialOf (thrownToBrowser trpc (.gateway failure)) = some (shownOf error) := by
  obtain ⟨raw, p, b, hraw, hp, hscreen, hresource, hoperation⟩ := request_admitted hcall hsafe hrule
    hpositive ((defineService_service hboot).symm ▸ howner) (hrpc.symm ▸ harrives)
  rw [dispatchSubject, hrpc] at hscreen
  obtain ⟨signature, hreply⟩ := @settle_refused crypto secret b.route e.requestMeta error text
    published htext
  have hhandle : (handle crypto secret rt raw (rpcSubject args.resource args.operation) now
      execute published).reply = some (.refused e.requestMeta.requestId signature error.toWire) := by
    rw [handle]
    dsimp only at hscreen
    rw [hscreen]
    simp only [hrefuses b.entry p hresource hoperation hp]
    exact hreply
  obtain ⟨sent, received, hreceived⟩ := reply_accepted (rpcSubject args.resource args.operation)
    ((hcall.valid hsafe).requestId.trans' (by decide)) (answers_of_settle hreply)
  obtain ⟨q, hproject, hanswered⟩ := hreceived.answered
  have hok := hreceived.isOk
  cases received with
  | ok => cases hok
  | refused requestId' signature' error' =>
      have herror := wireError_arrives hproject hanswered
      have hconclude : conclude crypto secret (contracts args.resource args.operation) service
          (rpcSubject args.resource args.operation) e (.message sent) =
            .error (.failed (toFailure error')) := by
        simp only [conclude, hreceived.accepted, hreceived.proved]
      refine ⟨raw, _, sent, _, hraw, hhandle, hreceived.encoded, hconclude, ?_⟩
      have hfails : Fails crypto secret reg contracts (toFailure error') := .answered hconclude
      have hshown : (toFailure error').members = shownOf error := by
        rw [herror, members_toFailure, shownOf]
        obtain ⟨code, message, data⟩ := error
        cases code with
        | upgradeRequired =>
            cases data with
            | none => rfl
            | some data =>
                dsimp only
                rw [Option.bind_some, Value.decoded]
                cases project data <;> rfl
        | _ => rfl
      rw [denialOf_thrown hdocumented (isPlain_of_admissible (admissible_of_fails hfails))
        (hshown ▸ havoids), hshown]

end Dispatch

/-! ## A stranger and a missing project -/

/-- A tRPC that assigns every member and a superjson that changes nothing. -/
def plainTRPC : TRPC where
  causeOf := id
  cross := id
  refused := prototypeKeys

/-- The plain tRPC behaves as is documented, and refuses what superjson does. -/
theorem plainTRPC_documented : plainTRPC.Documented where
  keeps := fun _ _ _ _ => rfl
  whole := fun _ _ _ => rfl
  refuses := fun _ hk => hk

/-- A call without a session, and an error of the database that has a code of its own. -/
theorem stranger_reaches_browser :
    denialOf (thrownToBrowser plainTRPC
        (.gateway (.coded .unauthorized (str "Sign in to continue.")))) =
      some [(str "code", .string (str "UNAUTHORIZED")),
        (str "message", .string (str "Sign in to continue."))] ∧
    denialOf (thrownToBrowser plainTRPC
        (.other ⟨[(str "code", .string (str "ECONNREFUSED"))], []⟩ (str "connect"))) = none := by
  have hchannel := @denials_reach_browser .transparent (str "secret") registry
    (contractFor roughFormats) plainTRPC plainTRPC_documented
  have hfails : Fails .transparent (str "secret") registry (contractFor roughFormats)
      (.coded .unauthorized (str "Sign in to continue.")) :=
    @Fails.refused _ _ _ _ (removeCall []) { removeAnswers with identity := none } _ rfl
  have hunknown : appFailure ⟨[(str "code", .string (str "ECONNREFUSED"))], []⟩ (str "connect") =
      none := by decide
  refine ⟨(hchannel.1 _ hfails (fun _ hdata => nomatch hdata)).1, ?_⟩
  rw [hchannel.2 _ _ (by rw [hunknown]; simp), hunknown]

/-- The projects service finds no such project. -/
def noSuchProject : ServiceError :=
  { code := .notFound, message := str "Project not found.", data := none }

/-- The refusal of a project that is not there, followed from the handler to the browser's
denial. -/
theorem missing_project_reaches_browser : ∃ raw reply sent failure,
    encode reply.toValue = some sent ∧
    (handle .transparent (str "secret") (shippedPlatform.service .projects) raw
      (rpcSubject (str "project") .delete) 1000 (fun _ _ _ => .refused noSuchProject) true).reply =
        some reply ∧
    denialOf (thrownToBrowser plainTRPC (.gateway failure)) =
      some [(str "code", .string (str "NOT_FOUND")),
        (str "message", .string (str "Project not found."))] := by
  obtain ⟨e, hcall, hmeta, -⟩ := remove_honest .transparent (str "secret") (str "p1")
  obtain ⟨handlers, hboot⟩ := shippedPlatform.booted .projects
  obtain ⟨text, htext⟩ := @canonicalJson_of_data noSuchProject.toWire rfl
  have hsafe : ClocksSafe e := by
    rw [ClocksSafe, hmeta]
    decide
  have harrives : Arrives e .rpc 1000 1000 := by
    constructor
    · rw [hmeta]
      decide
    · decide
    · intro _
      rw [hmeta]
      decide
  obtain ⟨raw, reply, sent, failure, -, hreply, hsent, -, hshown⟩ :=
    @service_refusals_reach_browser _ _ _ _ _ plainTRPC_documented _ _ _ e
      (mutationRule .admin false 5000) _ _ _ 1000 1000 (fun _ _ _ => .refused noSuchProject) _ text
      hcall hsafe rfl rfl (by decide) rfl hboot harrives (fun _ _ _ _ _ => rfl) htext
      (by decide) true
  exact ⟨raw, reply, sent, failure, hsent, hreply, hshown⟩

end Guardrail
