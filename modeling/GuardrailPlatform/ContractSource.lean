import GuardrailPlatform.JsValue

/-!
# Contract sources

A contract file declares constants, and object literals with an `input` and an
`output`.  This file has the expressions such a file is written with and what
they evaluate to: object schemas, with the fields they accept at any depth.
Every expression evaluates; what other modules, other functions and other
expressions make of their values is given (`Outside`).

Every field remembers the route its name came in by.  The route is no part of
the evaluation: nothing looks at it.  A name is written where the architecture
check reads it in the text it follows; it is out of the check's reach where it
came in through the name of a constant or an import that is not the root of the
chain, through a computed key, or out of something else's hands.
-/

namespace Guardrail.ContractSource

open Js

/-! ## Syntax -/

mutual

inductive Expr
  | ident (name : JSString)
  /-- A string literal. -/
  | text (s : JSString)
  /-- Any other literal, and whether its value is truthy. -/
  | literal (truthy : Bool)
  | access (owner : Expr) (name : JSString)
  | call (callee : Expr) (arguments : List Expr)
  | paren (inner : Expr)
  /-- `inner as T`, `inner satisfies T` or `inner!`. -/
  | assertion (inner : Expr)
  | object (members : List Member)
  | array (items : List Expr)
  /-- A function, with the expressions in it. -/
  | function (parts : List Expr)
  /-- Anything else, with the expressions in it. -/
  | other (parts : List Expr)

inductive Member
  /-- `name: value`, the name an identifier, a string or a number. -/
  | property (name : JSString) (value : Expr)
  /-- `[key]: value`. -/
  | computed (key value : Expr)
  | shorthand (name : JSString)
  | spread (value : Expr)

end

/-- A statement at the top level: a named constant, or an expression that is none. -/
structure TopLevel where
  name : Option JSString
  value : Expr

/-- A contract file.  A constant is declared once, and `z` is what zod exports. -/
structure ContractFile where
  statements : List TopLevel
  unique : (statements.filterMap (·.name)).Nodup
  zod : str "z" ∉ statements.filterMap (·.name)

/-! ## Values -/

/-- How a field's name came in. -/
inductive Route
  /-- As a property of a literal that the check reads. -/
  | written
  /-- In what the name of a constant or an import stands for. -/
  | named
  /-- As the value of a computed key, or as a text that a record's keys are taken from. -/
  | computed
  /-- In the argument of something called `omit`. -/
  | omitted
  /-- From a function that is not zod's, or an expression of another kind. -/
  | outside
  /-- In an input that is no plain property, or beside an output that is none. -/
  | given
deriving DecidableEq

/-- A name, and how it came in. -/
structure FieldName where
  text : JSString
  route : Route

/-- The same name, where it was written brought in by another route. -/
def FieldName.brought (route : Route) (name : FieldName) : FieldName :=
  if name.route = .written then { name with route } else name

/-- What a schema accepts, at any depth.  An open one accepts fields it does not name. -/
structure Accepted where
  names : List FieldName
  isOpen : Bool

namespace Accepted

def nothing : Accepted := { names := [], isOpen := false }

def anything : Accepted := { names := [], isOpen := true }

def also (a b : Accepted) : Accepted :=
  { names := a.names ++ b.names, isOpen := a.isOpen || b.isOpen }

/-- What any of them accepts. -/
def union : List Accepted → Accepted
  | [] => nothing
  | a :: rest => a.also (union rest)

def brought (route : Route) (a : Accepted) : Accepted :=
  { a with names := a.names.map (FieldName.brought route) }

def Accepts (a : Accepted) (name : JSString) : Prop :=
  a.isOpen = true ∨ ∃ n ∈ a.names, n.text = name

/-- Accepts it as a name that came in so. -/
def AcceptsBy (a : Accepted) (route : Route) (name : JSString) : Prop :=
  ∃ n ∈ a.names, n.route = route ∧ n.text = name

/-- Accepts it though it is open, or as a name that came in by a route the check does not
read. -/
def AcceptsUnread (a : Accepted) (name : JSString) : Prop :=
  a.isOpen = true ∨ ∃ route, route ≠ .written ∧ a.AcceptsBy route name

end Accepted

inductive Val
  /-- The module `z`, or one of its namespaces. -/
  | zod
  /-- A schema: the fields of an object schema, and what it accepts besides. -/
  | schema (fields : List (FieldName × Val)) (rest : Accepted)
  /-- A schema of these texts. -/
  | enumeration (options : List JSString)
  /-- An object literal. -/
  | record (fields : List (FieldName × Val))
  | list (items : List Val)
  | text (s : JSString)
  /-- A method, of whatever it is called on. -/
  | method (owner : Val) (name : JSString)
  /-- A value that is none of these. -/
  | plain (truthy : Bool)

/-- One field of an object, and its value. -/
abbrev Field := FieldName × Val

/-- Where both have a name, the later one counts. -/
def override (earlier later : List Field) : List Field :=
  (earlier.filter fun field => later.all fun new => new.1.text != field.1.text) ++ later

def fieldNamed (fields : List Field) (name : JSString) : Option Val :=
  (fields.find? fun field => field.1.text == name).map (·.2)

namespace Val

mutual

/-- What the value accepts as a schema.  What is no schema accepts nothing. -/
def accepted : Val → Accepted
  | zod => .nothing
  | schema fields rest => (acceptedFields fields).also rest
  | enumeration _ => .nothing
  | record _ => .nothing
  | list _ => .nothing
  | text _ => .nothing
  | method _ _ => .nothing
  | plain _ => .nothing

/-- The fields themselves, and what is below them. -/
def acceptedFields : List (FieldName × Val) → Accepted
  | [] => .nothing
  | (name, v) :: fields =>
    Accepted.also { v.accepted with names := name :: v.accepted.names } (acceptedFields fields)

end

mutual

/-- The value, where what was written in it is brought in by another route. -/
def brought (route : Route) : Val → Val
  | zod => zod
  | schema fields rest => schema (broughtFields route fields) (rest.brought route)
  | enumeration options => enumeration options
  | record fields => record (broughtFields route fields)
  | list items => list (broughtAll route items)
  | text s => text s
  | method owner name => method (brought route owner) name
  | plain truthy => plain truthy

def broughtFields (route : Route) : List (FieldName × Val) → List (FieldName × Val)
  | [] => []
  | (name, v) :: fields => (name.brought route, brought route v) :: broughtFields route fields

def broughtAll (route : Route) : List Val → List Val
  | [] => []
  | v :: vs => brought route v :: broughtAll route vs

end

def truthy : Val → Bool
  | text s => s.length != 0
  | plain truthy => truthy
  | _ => true

/-- The options of a union: those of a list, or the value itself. -/
def options : Val → List Val
  | list items => items
  | v => [v]

/-- A schema that accepts what any of these does. -/
def anyOf : List Val → Val
  | [schema fields rest] => schema fields rest
  | vs => schema [] (Accepted.union (vs.map accepted))

def text? : Val → Option JSString
  | text s => some s
  | _ => none

/-- Does a mask name the field, with a truthy value? -/
def masks (mask : List Field) (field : Field) : Bool :=
  (fieldNamed mask field.1.text).any truthy

/-- Schemas that accept no field. -/
def leafSchemas : List JSString :=
  ["string", "number", "boolean", "bigint", "date", "int", "email", "url", "uuid", "guid", "cuid",
    "cuid2", "ulid", "nanoid", "base64", "ipv4", "ipv6", "jwt", "emoji", "datetime", "time",
    "duration", "templateLiteral", "stringbool", "null", "undefined", "void", "never", "nan",
    "symbol"].map str

/-- Schemas that accept whatever the schemas they are given do. -/
def wrapSchemas : List JSString :=
  ["union", "discriminatedUnion", "xor", "intersection", "array", "tuple", "optional", "nullable",
    "nullish", "nonoptional", "readonly", "promise", "set", "map", "preprocess"].map str

/-- Schemas of anything. -/
def openSchemas : List JSString :=
  ["any", "unknown", "custom", "instanceof", "json", "looseRecord"].map str

/-- `z.name(...)`, where it is one of these. -/
def ofZod (name : JSString) (args : List Val) : Option Val :=
  if name = str "object" ∨ name = str "strictObject" ∨ name = str "looseObject" then
    let rest : Accepted := { names := [], isOpen := name == str "looseObject" }
    match args with
    | [] => some (schema [] rest)
    | record fields :: _ => some (schema fields rest)
    | _ => none
  else if name = str "enum" ∨ name = str "literal" then
    match args with
    -- the values of an enum object are not looked into
    | [record _] => none
    | _ => some (enumeration ((args.flatMap options).filterMap text?))
  else if name = str "record" ∨ name = str "partialRecord" then
    match args with
    | [enumeration keys, value] =>
      some (schema (keys.map fun key => (⟨key, .computed⟩, value)) .nothing)
    | _ => some (schema [] (Accepted.anything.also (anyOf args).accepted))
  else if leafSchemas.contains name then some (schema [] .nothing)
  else if wrapSchemas.contains name then some (anyOf (args.flatMap options))
  else if openSchemas.contains name then some (schema [] .anything)
  else none

/-- Methods that leave what a schema accepts as it is. -/
def keepingMethods : List JSString :=
  ["refine", "superRefine", "check", "overwrite", "transform", "pipe", "optional", "exactOptional",
    "nullable", "nullish", "nonoptional", "default", "prefault", "catch", "readonly", "brand",
    "describe", "meta", "register", "clone", "partial", "required", "array", "unwrap", "min", "max",
    "length", "nonempty", "regex", "trim", "toLowerCase", "toUpperCase", "startsWith", "endsWith",
    "includes", "email", "url", "uuid", "int", "positive", "nonnegative", "negative", "nonpositive",
    "multipleOf", "finite", "safe", "gt", "gte", "lt", "lte", "datetime"].map str

/-- Methods that do not. -/
def changingMethods : List JSString :=
  ["extend", "safeExtend", "merge", "omit", "pick", "passthrough", "loose", "catchall", "strict",
    "strip", "keyof", "and", "or"].map str

/-- A method of a schema, where it is one of these. -/
def ofSchema (fields : List Field) (rest : Accepted) (name : JSString) (args : List Val) :
    Option Val :=
  if name = str "extend" ∨ name = str "safeExtend" then
    match args with
    | [record new] => some (schema (override fields new) rest)
    | _ => none
  else if name = str "merge" then
    match args with
    | [schema new other] =>
      some (schema (override fields new)
        { names := rest.names ++ other.names, isOpen := other.isOpen })
    | _ => none
  else if name = str "omit" then
    match args with
    | [record mask] => some (schema (fields.filter fun field => !masks mask field) rest)
    | _ => none
  else if name = str "pick" then
    match args with
    | [record mask] => some (schema (fields.filter (masks mask)) rest)
    | _ => none
  else if name = str "passthrough" ∨ name = str "loose" ∨ name = str "catchall" then
    some (schema fields { rest with isOpen := true })
  else if name = str "strict" ∨ name = str "strip" then
    some (schema fields { rest with isOpen := false })
  else if name = str "keyof" then some (enumeration (fields.map (·.1.text)))
  else if name = str "and" ∨ name = str "or" then
    some (schema fields (rest.also (anyOf args).accepted))
  else if keepingMethods.contains name then some (schema fields rest)
  else none

end Val

/-! ## Evaluation -/

/-- What names in scope stand for. -/
abbrev Env := JSString → Val

/-- What a contract file does not say itself. -/
structure Outside where
  /-- What it imports, and the language's globals. -/
  imports : Env
  /-- A property of what is no literal, other than a schema's shape and the methods above. -/
  property : Val → JSString → Val
  /-- A call of what is not zod's. -/
  call : Val → List Val → Val
  /-- An expression of another kind, of the values in it. -/
  other : List Val → Val
  /-- The key a value is as a property's name. -/
  key : Val → JSString

namespace Outside

variable (out : Outside)

/-- The name a computed key is. -/
def keyOf : Val → JSString
  | .text s => s
  | v => out.key v

/-- `owner.name`. -/
def access (owner : Val) (name : JSString) : Val :=
  match owner with
  | .zod => if name = str "coerce" ∨ name = str "iso" then .zod else .method .zod name
  | .schema fields rest =>
    if name = str "shape" then .record fields
    else if Val.changingMethods.contains name || Val.keepingMethods.contains name then
      .method (.schema fields rest) name
    -- such as the `element` of an array
    else (out.property (.schema fields rest) name).brought .outside
  | .enumeration options =>
    if Val.keepingMethods.contains name then .method (.enumeration options) name
    else (out.property (.enumeration options) name).brought .outside
  -- a property that is not there is undefined
  | .record fields => (fieldNamed fields name).getD (.plain false)
  | owner => (out.property owner name).brought .outside

/-- A call. -/
def apply (callee : Val) (args : List Val) : Val :=
  let made :=
    match callee with
    | .method .zod name => Val.ofZod name args
    | .method (.schema fields rest) name => Val.ofSchema fields rest name args
    | .method (.enumeration options) name =>
      if Val.keepingMethods.contains name then some (.enumeration options) else none
    | _ => none
  made.getD ((out.call callee args).brought .outside)

end Outside

/-- The fields that spreading a value into a literal brings. -/
def spreadFields : Val → List Field
  | .record fields => fields
  | _ => []

/-- The callee of `isOmitCall`. -/
def isOmit : Expr → Bool
  | .access _ name => name == str "omit"
  | _ => false

mutual

/-- Evaluate an expression.  `followed` says whether it is on the chain the
check follows: then what the constant at its root stands for counts as written. -/
def eval (out : Outside) (env : Env) (followed : Bool) : Expr → Val
  | .ident name =>
    if name = str "z" then .zod else if followed then env name else (env name).brought .named
  | .text s => .text s
  | .literal truthy => .plain truthy
  | .access owner name => out.access (eval out env followed owner) name
  | .call callee args =>
    out.apply (eval out env followed callee)
      (if isOmit callee then Val.broughtAll .omitted (evalAll out env args) else evalAll out env args)
  | .paren inner => eval out env followed inner
  -- the check does not look through it for the root of a chain
  | .assertion inner => eval out env false inner
  | .object members => .record (evalMembers out env members)
  | .array items => .list (evalAll out env items)
  | .function _ => .plain true
  | .other parts => (out.other (evalAll out env parts)).brought .outside

def evalAll (out : Outside) (env : Env) : List Expr → List Val
  | [] => []
  | e :: es => eval out env false e :: evalAll out env es

def evalMember (out : Outside) (env : Env) : Member → List Field
  | .property name value => [(⟨name, .written⟩, eval out env false value)]
  | .computed key value =>
    [(⟨out.keyOf (eval out env false key), .computed⟩, eval out env false value)]
  | .shorthand name => [(⟨name, .written⟩, (env name).brought .named)]
  | .spread value => spreadFields (eval out env false value)

def evalMembers (out : Outside) (env : Env) : List Member → List Field
  | [] => []
  | m :: ms => override (evalMember out env m) (evalMembers out env ms)

end

/-- A statement puts its constant in scope. -/
def bindStatement (out : Outside) (env : Env) (statement : TopLevel) : Env :=
  match statement.name with
  | none => env
  | some name => Function.update env name (eval out env true statement.value)

/-- The scope after some of a file's statements. -/
def scopeAfter (out : Outside) (start : Env) (statements : List TopLevel) : Env :=
  statements.foldl (bindStatement out) start

/-- The scope a file starts from: its imports, whose text the check does not read.  A
constant that is not yet declared is nothing. -/
def ContractFile.imported (file : ContractFile) (out : Outside) : Env := fun name =>
  if ∃ statement ∈ file.statements, statement.name = some name then .plain false
  else (out.imports name).brought .named

/-! ## Operations -/

mutual

/-- The object literals in an expression, itself included. -/
def literals : Expr → List (List Member)
  | .ident _ => []
  | .text _ => []
  | .literal _ => []
  | .access owner _ => literals owner
  | .call callee args => literals callee ++ literalsAll args
  | .paren inner => literals inner
  | .assertion inner => literals inner
  | .object members => members :: literalsMembers members
  | .array items => literalsAll items
  | .function parts => literalsAll parts
  | .other parts => literalsAll parts

def literalsAll : List Expr → List (List Member)
  | [] => []
  | e :: es => literals e ++ literalsAll es

def literalsMember : Member → List (List Member)
  | .property _ value => literals value
  | .computed key value => literals key ++ literals value
  | .shorthand _ => []
  | .spread value => literals value

def literalsMembers : List Member → List (List Member)
  | [] => []
  | m :: ms => literalsMember m ++ literalsMembers ms

end

/-- `propertyName`. -/
def propertyName : Member → Option JSString
  | .property name _ => some name
  | .computed _ _ => none
  | .shorthand name => some name
  | .spread _ => none

/-- The literal is one the check takes for an operation. -/
def isChecked (members : List Member) : Bool :=
  (members.map propertyName).contains (some (str "input")) &&
    (members.map propertyName).contains (some (str "output"))

/-- What a member gives the literal as its input, if anything. -/
def memberInput (out : Outside) (env : Env) (checked : Bool) : Member → Option Val
  | .property name value =>
    if name = str "input" then
      let v := eval out env true value
      some (if checked then v else v.brought .given)
    else none
  | .computed key value =>
    if out.keyOf (eval out env false key) = str "input" then
      some ((eval out env false value).brought .given)
    else none
  | .shorthand name => if name = str "input" then some ((env name).brought .given) else none
  | .spread value =>
    (fieldNamed (spreadFields (eval out env false value)) (str "input")).map (·.brought .given)

/-- The input of a literal: what its last member that gives one gives. -/
def literalInput (out : Outside) (env : Env) (checked : Bool) : List Member → Option Val
  | [] => none
  | m :: ms => literalInput out env checked ms <|> memberInput out env checked m

/-- A literal with an `input` and an `output`, and what its input accepts. -/
structure IsOperation (out : Outside) (env : Env) (members : List Member) (input : Accepted) :
    Prop where
  output : (fieldNamed (evalMembers out env members) (str "output")).isSome = true
  input : ∃ v, literalInput out env (isChecked members) members = some v ∧ v.accepted = input

/-- An operation of the file accepts this as its input. -/
def ContractFile.Takes (file : ContractFile) (out : Outside) (input : Accepted) : Prop :=
  ∃ before statement after members, file.statements = before ++ statement :: after ∧
    members ∈ literals statement.value ∧
    IsOperation out (scopeAfter out (file.imported out) before) members input

end Guardrail.ContractSource
