import GuardrailPlatform.Gateway
import GuardrailPlatform.RegistryData
import GuardrailPlatform.Subjects

/-!
# Who may use which subject

`generate-auth.ts` derives, from the routes, one bus user for each process and
the subjects it may publish and subscribe to.  The server matches a subject
against these lists with the wildcards `*` and `>`.

This file models the derivation and proves that it grants what the running
processes use: the gateway publishes what `dispatch` addresses, a service
subscribes to what `defineService` binds and publishes its own events, and a
service that owns a command can drive a consumer on the stream that holds it.
-/

namespace Guardrail

open Js Subjects

/-! ## The streams -/

structure StreamConfig where
  name : JSString
  subjects : List JSString
  description : JSString
  maxAgeDays : ℕ

/-- `STREAMS`. -/
def streams : List StreamConfig :=
  [{ name := str "CMD", subjects := [str "cmd.>"],
     description := str "Durable commands the gateway accepted but has not executed yet.",
     maxAgeDays := 7 },
   { name := str "EVT", subjects := [str "evt.>"],
     description := str "Facts emitted by services after a successful mutation.",
     maxAgeDays := 30 }]

/-- `SERVICES`. -/
def services : List ServiceName := [.projects, .identity, .billing, .audit]

/-! ## Users -/

/-- What a user may do with which subjects. -/
structure Permissions where
  publish : List JSString
  subscribe : List JSString
  allowResponses : Bool

inductive Account
  | app
  | sys
deriving DecidableEq

structure BusUser where
  name : JSString
  account : Account
  permissions : Option Permissions

/-- `JS_API_INFO`. -/
def jsApiInfo : JSString := str "$JS.API.INFO"

/-- Everything a pull consumer on one stream has to be able to ask for. -/
def consumerApi (stream : JSString) : List JSString :=
  [str "$JS.API.STREAM.INFO." ++ stream,
   str "$JS.API.CONSUMER.CREATE." ++ stream,
   str "$JS.API.CONSUMER.CREATE." ++ stream ++ str ".>",
   str "$JS.API.CONSUMER.DURABLE.CREATE." ++ stream ++ str ".*",
   str "$JS.API.CONSUMER.INFO." ++ stream ++ str ".*",
   str "$JS.API.CONSUMER.MSG.NEXT." ++ stream ++ str ".*"]

def streamApi (stream : JSString) : List JSString :=
  [str "$JS.API.STREAM.CREATE." ++ stream, str "$JS.API.STREAM.UPDATE." ++ stream,
   str "$JS.API.STREAM.INFO." ++ stream]

def inbox (user : JSString) : JSString := str "_INBOX." ++ user ++ str ".>"

/-- The first stream one of whose subjects starts so. -/
def streamStarting (start : JSString) : Option JSString :=
  (streams.find? fun stream => stream.subjects.any fun subject => start.isPrefixOf subject).map
    (·.name)

/-- The stream a transport lands in. -/
def streamCarrying : Transport → Option JSString
  | .command => streamStarting (str "cmd.")
  | .rpc => none

/-- `EVENT_STREAM`. -/
def eventStream : Option JSString := streamStarting (str "evt.")

/-- `.sort()`. -/
def sorted (subjects : List JSString) : List JSString := subjects.insertionSort (· ≤ ·)

/-- `[...new Set(names)]`. -/
def distinct {α : Type} [DecidableEq α] (names : List α) : List α := names.eraseDups

section

variable (reg : Registry)

/-- `EVENT_CONSUMERS`: who runs the trail and who runs the meter.  `none` is
the throw where either resource is undeclared. -/
def eventConsumers : Option (List ServiceName) := do
  let trail ← reg.ownerOf (str "auditLog")
  let meter ← reg.ownerOf (str "billing")
  return distinct [trail, meter]

def gatewayUser : BusUser :=
  { name := str "gateway", account := .app,
    permissions := some {
      publish := sorted (reg.routes.map (·.subject)),
      subscribe := [inbox (str "gateway")],
      allowResponses := false } }

/-- The routes of a service. -/
def ownedRoutes (service : ServiceName) : List SubjectRoute :=
  reg.routes.filter fun route => route.owner == service

/-- The streams whose commands a service executes. -/
def commandStreams (service : ServiceName) : List JSString :=
  distinct ((ownedRoutes reg service).filterMap fun route => streamCarrying route.transport)

def serviceUser (consumers : List ServiceName) (service : ServiceName) : BusUser :=
  let owned := ownedRoutes reg service
  let serves := (owned.filter fun route => route.transport == .rpc).map (·.subject)
  let emits := owned.filterMap (·.event)
  let eventStreams := if consumers.contains service then eventStream.toList else []
  let consumed := distinct (commandStreams reg service ++ eventStreams)
  let jetstream :=
    if consumed.length = 0 then []
    else jsApiInfo :: consumed.flatMap consumerApi ++ [str "$JS.ACK.>"]
  { name := service.name, account := .app,
    permissions := some {
      publish := sorted (emits ++ jetstream),
      subscribe := sorted (serves ++ [inbox service.name]),
      allowResponses := decide (serves.length > 0) } }

end

def bootstrapUser : BusUser :=
  { name := str "bootstrap", account := .app,
    permissions := some {
      publish := sorted (jsApiInfo :: (streams.map (·.name)).flatMap streamApi),
      subscribe := [inbox (str "bootstrap")],
      allowResponses := false } }

def observerUser : BusUser :=
  { name := str "observer", account := .app,
    permissions := some {
      publish := [],
      subscribe := [str "evt.>", inbox (str "observer")],
      allowResponses := false } }

def sysadminUser : BusUser := { name := str "sysadmin", account := .sys, permissions := none }

/-- `USERS`. -/
def users (reg : Registry) : Option (List BusUser) := do
  let consumers ← eventConsumers reg
  return gatewayUser reg :: services.map (serviceUser reg consumers) ++
    [bootstrapUser, observerUser, sysadminUser]

/-! ## What the server lets through -/

/-- The separator and wildcards of the bus. -/
def busMarks : Marks UInt16 := { dot := 46, any := str "*", rest := str ">" }

def listed (patterns : List JSString) (subject : JSString) : Bool :=
  patterns.any fun pattern => covers busMarks pattern subject

/-- An empty publish list is rendered as a denial of everything.  A user
without permissions is not restricted. -/
def BusUser.mayPublish (user : BusUser) (subject : JSString) : Bool :=
  match user.permissions with
  | none => true
  | some permissions => permissions.publish.length != 0 && listed permissions.publish subject

def BusUser.maySubscribe (user : BusUser) (subject : JSString) : Bool :=
  match user.permissions with
  | none => true
  | some permissions => listed permissions.subscribe subject

/-- A subject of the form `rpc.*.*`, `cmd.*.*` or `evt.*.*`. -/
def OnBus (subject : JSString) : Prop :=
  ∃ head ∈ [str "rpc", str "cmd", str "evt"], ∃ resource operation,
    tokens busMarks subject = [head, resource, operation]

/-- Resource keys a subject can carry as one token. -/
def PlainKeys (reg : Registry) : Prop :=
  ∀ resource ∈ reg.resourceKeys, 46 ∉ resource ∧ 42 ∉ resource ∧ 62 ∉ resource

/-! ## Matching -/

theorem mem_distinct {α : Type} [DecidableEq α] {names : List α} {name : α} :
    name ∈ distinct names ↔ name ∈ names := List.mem_eraseDups

/-- Sorting the subjects for the file drops none of them and adds none. -/
theorem mem_sorted {subjects : List JSString} {subject : JSString} :
    subject ∈ sorted subjects ↔ subject ∈ subjects := List.mem_insertionSort _

/-- A subject is listed where some pattern of the list covers it. -/
theorem listed_iff {patterns : List JSString} {subject : JSString} :
    listed patterns subject = true ↔ ∃ pattern ∈ patterns, covers busMarks pattern subject = true :=
  List.any_eq_true

/-- A pattern whose first token is literal and not `rpc`, `cmd` or `evt`. -/
def aside (pattern : JSString) : Bool :=
  (tokens busMarks pattern).head?.all fun token =>
    token != busMarks.any && token != busMarks.rest &&
      !([str "rpc", str "cmd", str "evt"].contains token)

/-- A pattern that lies aside covers none of the subjects that the platform's own traffic
goes by. -/
theorem covers_of_aside {pattern subject : JSString} (haside : aside pattern = true)
    (hsubject : OnBus subject) : covers busMarks pattern subject = false := by
  obtain ⟨head, hhead, resource, operation, htokens⟩ := hsubject
  rw [covers, htokens]
  cases hpattern : tokens busMarks pattern with
  | nil => rfl
  | cons token rest =>
      rw [aside, hpattern] at haside
      simp only [List.head?_cons, Option.all_some, Bool.and_eq_true, bne_iff_ne, Bool.not_eq_true',
        List.contains_eq_mem, decide_eq_false_iff_not] at haside
      by_contra hcovers
      rw [Bool.not_eq_false] at hcovers
      exact haside.2 (matchTokens_head haside.1 hcovers ▸ hhead)

/-- A subject that is joined from parts without dots has three tokens, which are the parts
themselves. -/
theorem tokens_subject {head resource : JSString} (operation : Operation) (hhead : 46 ∉ head)
    (hresource : 46 ∉ resource) :
    tokens busMarks (head ++ str "." ++ resource ++ str "." ++ operation.name) =
      [head, resource, operation.name] := by
  have hdot : str "." = [46] := by decide
  have hname : 46 ∉ operation.name := by cases operation <;> decide
  have hjoin : head ++ str "." ++ resource ++ str "." ++ operation.name =
      head ++ busMarks.dot :: (resource ++ busMarks.dot :: operation.name) := by
    simp [hdot, busMarks]
  rw [hjoin, tokens_append, tokens_append, tokens_of_notMem hhead, tokens_of_notMem hresource,
    tokens_of_notMem hname]
  rfl

/-- A token without the characters of the two wildcards stands for itself and for nothing
else. -/
theorem isLiteral_of_plain {token : JSString} (hany : 42 ∉ token) (hrest : 62 ∉ token) :
    IsLiteral busMarks token := by
  constructor
  · rintro rfl
    exact hany (by decide)
  · rintro rfl
    exact hrest (by decide)

/-- The subjects of an operation, of a resource whose key has no dot and no wildcard, are
literal patterns. -/
theorem covers_subject {head resource : JSString} {operation : Operation} {subject : JSString}
    (hhead : head ∈ [str "rpc", str "cmd", str "evt"])
    (hresource : 46 ∉ resource ∧ 42 ∉ resource ∧ 62 ∉ resource) :
    covers busMarks (head ++ str "." ++ resource ++ str "." ++ operation.name) subject = true ↔
      head ++ str "." ++ resource ++ str "." ++ operation.name = subject := by
  have hplain : ∀ head ∈ [str "rpc", str "cmd", str "evt"], 46 ∉ head ∧ 42 ∉ head ∧ 62 ∉ head := by
    decide
  obtain ⟨hdot, hany, hrest⟩ := hplain head hhead
  apply covers_literal
  rw [tokens_subject operation hdot hresource.1]
  intro token htoken
  simp only [List.mem_cons, List.not_mem_nil, or_false] at htoken
  rcases htoken with rfl | rfl | rfl
  · exact isLiteral_of_plain hany hrest
  · exact isLiteral_of_plain hresource.2.1 hresource.2.2
  · exact isLiteral_of_plain (by cases operation <;> decide) (by cases operation <;> decide)

theorem rpcSubject_eq (resource : ResourceKey) (operation : Operation) :
    rpcSubject resource operation =
      str "rpc" ++ str "." ++ resource ++ str "." ++ operation.name := by
  rw [rpcSubject, show str "rpc." = str "rpc" ++ str "." by decide]

theorem commandSubject_eq (resource : ResourceKey) (operation : Operation) :
    commandSubject resource operation =
      str "cmd" ++ str "." ++ resource ++ str "." ++ operation.name := by
  rw [commandSubject, show str "cmd." = str "cmd" ++ str "." by decide]

theorem eventSubject_eq (resource : ResourceKey) (operation : Operation) :
    eventSubject resource operation =
      str "evt" ++ str "." ++ resource ++ str "." ++ operation.name := by
  rw [eventSubject, show str "evt." = str "evt" ++ str "." by decide]

variable {reg : Registry}

/-- A declared resource's key is one token and no wildcard, if the keys are
plain. -/
theorem plain_of_resource? (hplain : PlainKeys reg) {resource : ResourceKey} {d : ResourceDefinition}
    (h : reg.resource? resource = some d) : 46 ∉ resource ∧ 42 ∉ resource ∧ 62 ∉ resource :=
  hplain resource (List.mem_map.mpr ⟨_, Registry.resource?_eq_some.mp h, rfl⟩)

/-- Where the keys of a registry are plain, the subject of a route covers itself and nothing
else. -/
theorem covers_route (hplain : PlainKeys reg) {route : SubjectRoute} (hroute : route ∈ reg.routes)
    {subject : JSString} : covers busMarks route.subject subject = true ↔ route.subject = subject := by
  obtain ⟨resource, d, operation, rule, hd, -, rfl⟩ := Registry.mem_routes.mp hroute
  have hkey := plain_of_resource? hplain hd
  rw [Registry.routeOf]
  cases rule.transport with
  | rpc =>
      simp only [rpcSubject_eq]
      exact covers_subject (by simp) hkey
  | command =>
      simp only [commandSubject_eq]
      exact covers_subject (by simp) hkey

/-- And the subject of a route's event, where it has one, covers itself and nothing else. -/
theorem covers_event (hplain : PlainKeys reg) {route : SubjectRoute} (hroute : route ∈ reg.routes)
    {event subject : JSString} (hevent : route.event = some event) :
    covers busMarks event subject = true ↔ event = subject := by
  obtain ⟨resource, d, operation, rule, hd, -, rfl⟩ := Registry.mem_routes.mp hroute
  have hkey := plain_of_resource? hplain hd
  simp only [Registry.routeOf] at hevent
  split at hevent
  · obtain rfl := Option.some.inj hevent
    rw [eventSubject_eq]
    exact covers_subject (by simp) hkey
  · cases hevent

/-! ## What each user is granted -/

/-- Patterns that all lie aside list no subject that the platform itself speaks on. -/
theorem listed_of_aside {patterns : List JSString} {subject : JSString}
    (haside : ∀ pattern ∈ patterns, aside pattern = true) (hsubject : OnBus subject) :
    listed patterns subject = false := by
  rw [listed, List.any_eq_false]
  intro pattern hpattern
  rw [covers_of_aside (haside pattern hpattern) hsubject]
  exact Bool.false_ne_true

theorem streamCarrying_eq_some {transport : Transport} {stream : JSString} :
    streamCarrying transport = some stream ↔ transport = .command ∧ stream = str "CMD" := by
  have hcommand : streamCarrying .command = some (str "CMD") := by decide
  cases transport with
  | rpc => simp [streamCarrying]
  | command => simp [hcommand, eq_comm]

/-- A service pulls from the command stream exactly where it owns a command. -/
theorem mem_commandStreams {service : ServiceName} {stream : JSString} :
    stream ∈ commandStreams reg service ↔
      (∃ route ∈ reg.routes, route.owner = service ∧ route.transport = .command) ∧
        stream = str "CMD" := by
  simp only [commandStreams, mem_distinct, List.mem_filterMap, ownedRoutes, List.mem_filter,
    beq_iff_eq, streamCarrying_eq_some]
  constructor
  · intro h
    obtain ⟨route, ⟨hroute, howner⟩, htransport, hstream⟩ := h
    exact ⟨⟨route, hroute, howner, htransport⟩, hstream⟩
  · intro h
    obtain ⟨⟨route, hroute, howner, htransport⟩, hstream⟩ := h
    exact ⟨route, ⟨hroute, howner⟩, htransport, hstream⟩

/-- The streams a service consumes. -/
def consumedStreams (reg : Registry) (consumers : List ServiceName) (service : ServiceName) :
    List JSString :=
  distinct (commandStreams reg service ++
    if consumers.contains service then eventStream.toList else [])

/-- A service consumes from the command and the event stream, and from no other. -/
theorem mem_consumedStreams {consumers : List ServiceName} {service : ServiceName}
    {stream : JSString} (h : stream ∈ consumedStreams reg consumers service) :
    stream ∈ [str "CMD", str "EVT"] := by
  rw [consumedStreams, mem_distinct, List.mem_append] at h
  rcases h with h | h
  · rw [(mem_commandStreams.mp h).2]
    exact List.mem_cons_self
  · split at h
    · have hevent : eventStream.toList = [str "EVT"] := by decide
      rw [hevent] at h
      exact List.mem_cons_of_mem _ h
    · cases h

/-- What a service asks of JetStream. -/
def jetstreamApi (reg : Registry) (consumers : List ServiceName) (service : ServiceName) :
    List JSString :=
  if (consumedStreams reg consumers service).length = 0 then []
  else jsApiInfo :: (consumedStreams reg consumers service).flatMap consumerApi ++ [str "$JS.ACK.>"]

/-- Whatever a consumer may need of the JetStream API is listed with the platform's two
streams. -/
theorem mem_jetstreamApi {consumers : List ServiceName} {service : ServiceName} {pattern : JSString}
    (h : pattern ∈ jetstreamApi reg consumers service) :
    pattern ∈ jsApiInfo :: [str "CMD", str "EVT"].flatMap consumerApi ++ [str "$JS.ACK.>"] := by
  unfold jetstreamApi at h
  split at h
  · cases h
  · simp only [List.cons_append, List.mem_cons, List.mem_append, List.mem_flatMap] at h ⊢
    rcases h with hinfo | ⟨stream, hstream, hcall⟩ | hack
    · exact .inl hinfo
    · exact .inr (.inl ⟨stream, by simpa using mem_consumedStreams hstream, hcall⟩)
    · exact .inr (.inr hack)

/-- The JetStream API lies aside of all traffic: its subjects begin with a
dollar sign. -/
theorem aside_jetstreamApi {consumers : List ServiceName} {service : ServiceName} :
    ∀ pattern ∈ jetstreamApi reg consumers service, aside pattern = true := by
  have hapi : ∀ pattern ∈ jsApiInfo ::
      [str "CMD", str "EVT"].flatMap consumerApi ++ [str "$JS.ACK.>"], aside pattern = true := by
    decide
  exact fun pattern hpattern => hapi pattern (mem_jetstreamApi hpattern)

/-- A service's inbox, its own subject for replies, lies aside of all the platform's
traffic. -/
theorem aside_inbox (service : ServiceName) : aside (inbox service.name) = true := by
  cases service <;> decide

/-- What a service's user may publish and subscribe to, once the JetStream API
is set apart. -/
theorem serviceUser_permissions (consumers : List ServiceName) (service : ServiceName) :
    ∃ responses, (serviceUser reg consumers service).permissions = some {
      publish := sorted ((ownedRoutes reg service).filterMap (·.event) ++
        jetstreamApi reg consumers service),
      subscribe := sorted (((ownedRoutes reg service).filter
        fun route => route.transport == .rpc).map (·.subject) ++ [inbox service.name]),
      allowResponses := responses } := ⟨_, rfl⟩

/-- A user with permissions publishes what its list has, since the list of an exact user is
never left empty. -/
theorem mayPublish_iff {user : BusUser} {permissions : Permissions} {subject : JSString}
    (h : user.permissions = some permissions) :
    user.mayPublish subject = true ↔ listed permissions.publish subject = true := by
  rw [BusUser.mayPublish, h, Bool.and_eq_true, bne_iff_ne]
  constructor
  · exact fun hboth => hboth.2
  · intro hlisted
    obtain ⟨pattern, hpattern, -⟩ := listed_iff.mp hlisted
    exact ⟨(List.length_pos_of_mem hpattern).ne', hlisted⟩

/-- The route table and step 8 of `dispatch` name the same subject. -/
theorem routeOf_subject (resource : ResourceKey) (owner : ServiceName) (operation : Operation)
    (rule : OperationRule) : (Registry.routeOf resource owner operation rule).subject =
      dispatchSubject rule resource operation := by
  simp only [Registry.routeOf, dispatchSubject]
  cases rule.transport <;> rfl

/-- On the bus the gateway publishes exactly what `dispatch` addresses its calls to, and is
sent nothing. -/
theorem gatewayUser_exact (hplain : PlainKeys reg) {subject : JSString} (hsubject : OnBus subject) :
    ((gatewayUser reg).mayPublish subject = true ↔ ∃ resource operation rule,
      reg.ruleFor resource operation = some rule ∧
        dispatchSubject rule resource operation = subject) ∧
    (gatewayUser reg).maySubscribe subject = false := by
  constructor
  · rw [mayPublish_iff rfl, listed_iff]
    constructor
    · intro h
      obtain ⟨pattern, hpattern, hcovers⟩ := h
      obtain ⟨route, hroute, rfl⟩ := List.mem_map.mp (mem_sorted.mp hpattern)
      have hsame := (covers_route hplain hroute).mp hcovers
      obtain ⟨resource, d, operation, rule, -, hrule, rfl⟩ := Registry.mem_routes.mp hroute
      exact ⟨resource, operation, rule, hrule, (routeOf_subject ..).symm.trans hsame⟩
    · intro h
      obtain ⟨resource, operation, rule, hrule, hsame⟩ := h
      obtain ⟨d, hd⟩ := Registry.resource?_of_ruleFor hrule
      have hroute : Registry.routeOf resource d.owner operation rule ∈ reg.routes :=
        Registry.mem_routes.mpr ⟨resource, d, operation, rule, hd, hrule, rfl⟩
      exact ⟨_, mem_sorted.mpr (List.mem_map_of_mem hroute),
        (covers_route hplain hroute).mpr ((routeOf_subject ..).trans hsame)⟩
  · have hinbox : ∀ pattern ∈ [inbox (str "gateway")], aside pattern = true := by decide
    exact listed_of_aside hinbox hsubject

/-- Of the platform's traffic a service publishes exactly the events of audited operations
that it owns. -/
theorem serviceUser_publish (hplain : PlainKeys reg) (consumers : List ServiceName)
    (service : ServiceName) {subject : JSString} (hsubject : OnBus subject) :
    (serviceUser reg consumers service).mayPublish subject = true ↔
      ∃ resource operation rule, reg.ownerOf resource = some service ∧
        reg.ruleFor resource operation = some rule ∧ rule.audit = true ∧
        eventSubject resource operation = subject := by
  obtain ⟨responses, hpermissions⟩ := @serviceUser_permissions reg consumers service
  rw [mayPublish_iff hpermissions, listed_iff]
  constructor
  · intro h
    obtain ⟨pattern, hpattern, hcovers⟩ := h
    rcases List.mem_append.mp (mem_sorted.mp hpattern) with hevent | hapi
    · obtain ⟨route, howned, hevent⟩ := List.mem_filterMap.mp hevent
      obtain ⟨hroute, howner⟩ := List.mem_filter.mp howned
      have hsame := (covers_event hplain hroute hevent).mp hcovers
      obtain ⟨resource, d, operation, rule, hd, hrule, rfl⟩ := Registry.mem_routes.mp hroute
      have hservice : d.owner = service := beq_iff_eq.mp howner
      simp only [Registry.routeOf] at hevent
      split at hevent
      · rename_i haudit
        obtain rfl := Option.some.inj hevent
        exact ⟨resource, operation, rule, by rw [Registry.ownerOf, hd, Option.map_some, hservice],
          hrule, haudit, hsame⟩
      · cases hevent
    · rw [covers_of_aside (aside_jetstreamApi pattern hapi) hsubject] at hcovers
      cases hcovers
  · intro h
    obtain ⟨resource, operation, rule, howner, hrule, haudit, rfl⟩ := h
    obtain ⟨d, hd, hservice⟩ := Option.map_eq_some_iff.mp howner
    have hroute : Registry.routeOf resource d.owner operation rule ∈ reg.routes :=
      Registry.mem_routes.mpr ⟨resource, d, operation, rule, hd, hrule, rfl⟩
    have hevent : (Registry.routeOf resource d.owner operation rule).event =
        some (eventSubject resource operation) := if_pos haudit
    have howned : Registry.routeOf resource d.owner operation rule ∈ ownedRoutes reg service :=
      List.mem_filter.mpr ⟨hroute, beq_iff_eq.mpr hservice⟩
    exact ⟨_, mem_sorted.mpr (List.mem_append_left _ (List.mem_filterMap.mpr ⟨_, howned, hevent⟩)),
      (covers_event hplain hroute hevent).mpr rfl⟩

/-- A service may subscribe to a platform subject exactly where its runtime binds a handler
for rpc calls there. -/
theorem serviceUser_subscribe (hplain : PlainKeys reg) (consumers : List ServiceName)
    (service : ServiceName) {subject : JSString} (hsubject : OnBus subject) {Effect : Type*}
    {handlers : List (HandlerEntry Effect)} {rt : ServiceRuntime reg Effect}
    (hboot : defineService reg service handlers = .ok rt) :
    (serviceUser reg consumers service).maySubscribe subject = true ↔
      ∃ b ∈ rt.bindings, b.route.transport = .rpc ∧ b.route.subject = subject := by
  have hservice : rt.service = service := defineService_service hboot
  obtain ⟨responses, hpermissions⟩ := @serviceUser_permissions reg consumers service
  rw [BusUser.maySubscribe, hpermissions, listed_iff]
  constructor
  · intro h
    obtain ⟨pattern, hpattern, hcovers⟩ := h
    rcases List.mem_append.mp (mem_sorted.mp hpattern) with hserved | hinbox
    · obtain ⟨route, hfiltered, rfl⟩ := List.mem_map.mp hserved
      obtain ⟨howned, hrpc⟩ := List.mem_filter.mp hfiltered
      obtain ⟨hroute, howner⟩ := List.mem_filter.mp howned
      have hsame := (covers_route hplain hroute).mp hcovers
      obtain ⟨b, hb, hserves⟩ := rt.complete route hroute (by rw [hservice]; exact beq_iff_eq.mp howner)
      obtain ⟨route', hroute', -, hbound, -⟩ := rt.bound b hb
      rw [Binding.serves, Bool.and_eq_true, beq_iff_eq, beq_iff_eq, hbound] at hserves
      obtain rfl := Registry.routes_unique hroute' hroute hserves.1 hserves.2
      exact ⟨b, hb, by rw [hbound]; exact beq_iff_eq.mp hrpc, by rw [hbound]; exact hsame⟩
    · obtain rfl := List.mem_singleton.mp hinbox
      rw [covers_of_aside (aside_inbox service) hsubject] at hcovers
      cases hcovers
  · intro h
    obtain ⟨b, hb, hrpc, hsame⟩ := h
    obtain ⟨route, hroute, howner, hbound, -⟩ := rt.bound b hb
    rw [hbound] at hrpc hsame
    have hserved : route ∈ (ownedRoutes reg service).filter fun route => route.transport == .rpc :=
      List.mem_filter.mpr ⟨List.mem_filter.mpr ⟨hroute, beq_iff_eq.mpr (howner.trans hservice)⟩,
        beq_iff_eq.mpr hrpc⟩
    exact ⟨_, mem_sorted.mpr (List.mem_append_left _ (List.mem_map_of_mem hserved)),
      (covers_route hplain hroute).mpr hsame⟩

/-- The user that sets the streams up neither speaks nor listens on the
platform's subjects. -/
theorem bootstrapUser_silent {subject : JSString} (hsubject : OnBus subject) :
    bootstrapUser.mayPublish subject = false ∧ bootstrapUser.maySubscribe subject = false := by
  constructor
  · have hlisted : listed (sorted (jsApiInfo :: (streams.map (·.name)).flatMap streamApi)) subject =
        false := by
      apply listed_of_aside _ hsubject
      intro pattern hpattern
      have hall : ∀ pattern ∈ jsApiInfo :: (streams.map (·.name)).flatMap streamApi,
          aside pattern = true := by decide
      exact hall pattern (mem_sorted.mp hpattern)
    rw [← Bool.not_eq_true, mayPublish_iff rfl, hlisted]
    exact Bool.false_ne_true
  · exact listed_of_aside (by decide) hsubject

/-! ## Command consumers -/

/-- What a process asks of JetStream to create, inspect and pull a durable
consumer, by either form of the creation call. -/
def consumerCalls (stream durable filter : JSString) : List JSString :=
  [str "$JS.API.CONSUMER.CREATE." ++ stream,
   str "$JS.API.CONSUMER.CREATE." ++ stream ++ str "." ++ durable,
   str "$JS.API.CONSUMER.CREATE." ++ stream ++ str "." ++ durable ++ str "." ++ filter,
   str "$JS.API.CONSUMER.DURABLE.CREATE." ++ stream ++ str "." ++ durable,
   str "$JS.API.CONSUMER.INFO." ++ stream ++ str "." ++ durable,
   str "$JS.API.CONSUMER.MSG.NEXT." ++ stream ++ str "." ++ durable]

/-- A pattern that matches a subject still does so behind a front which both of them share.
-/
theorem covers_under {front back subject : JSString}
    (h : matchTokens busMarks (tokens busMarks back) (tokens busMarks subject) = true) :
    covers busMarks (front ++ str "." ++ back) (front ++ str "." ++ subject) = true := by
  have hjoin : ∀ word : JSString, front ++ str "." ++ word = front ++ busMarks.dot :: word := by
    intro word
    rw [List.append_assoc]
    rfl
  rw [covers, hjoin, hjoin, tokens_append, tokens_append]
  exact matchTokens_append_same _ _ _ h

/-- The rest wildcard on its own matches whatever is left of a subject, if anything is. -/
theorem matches_rest (subject : JSString) :
    matchTokens busMarks (tokens busMarks (str ">")) (tokens busMarks subject) = true := by
  have htail : tokens busMarks (str ">") = [busMarks.rest] := by decide
  rw [htail]
  exact matchTokens_rest (List.splitOn_ne_nil _ _)

theorem matches_any {token : JSString} (h : 46 ∉ token) :
    matchTokens busMarks (tokens busMarks (str "*")) (tokens busMarks token) = true := by
  have hstar : tokens busMarks (str "*") = [busMarks.any] := by decide
  rw [hstar, tokens_of_notMem h]
  exact matchTokens_any token

/-- A subject is covered by the pattern that spells it, wildcards or not. -/
theorem covers_self (subject : JSString) : covers busMarks subject subject = true := by
  have h := @matchTokens_append_same UInt16 _ busMarks (tokens busMarks subject) [] [] rfl
  simpa only [covers, List.append_nil] using h

/-- The grants for a stream cover every call a consumer on it makes. -/
theorem consumerApi_covers (stream : JSString) {durable : JSString} (hdurable : 46 ∉ durable)
    (filter : JSString) : ∀ call ∈ consumerCalls stream durable filter,
      ∃ pattern ∈ consumerApi stream, covers busMarks pattern call = true := by
  have hstar : str ".*" = str "." ++ str "*" := by decide
  have htail : str ".>" = str "." ++ str ">" := by decide
  intro call hcall
  simp only [consumerCalls, List.mem_cons, List.not_mem_nil, or_false] at hcall
  simp only [consumerApi, hstar, htail, ← List.append_assoc]
  rcases hcall with rfl | rfl | rfl | rfl | rfl | rfl
  · exact ⟨_, by simp, covers_self _⟩
  · exact ⟨_, .tail _ (.tail _ (.head _)), covers_under (matches_rest _)⟩
  · refine ⟨_, .tail _ (.tail _ (.head _)), ?_⟩
    rw [List.append_assoc _ durable, List.append_assoc _ (durable ++ _)]
    exact covers_under (matches_rest _)
  · exact ⟨_, .tail _ (.tail _ (.tail _ (.head _))), covers_under (matches_any hdurable)⟩
  · exact ⟨_, .tail _ (.tail _ (.tail _ (.tail _ (.head _)))), covers_under (matches_any hdurable)⟩
  · exact ⟨_, .tail _ (.tail _ (.tail _ (.tail _ (.tail _ (.head _))))),
      covers_under (matches_any hdurable)⟩

/-- A stream that captures the subject of a command is the command stream: no other lists
it. -/
theorem name_of_captures (hplain : PlainKeys reg) {resource : ResourceKey} {operation : Operation}
    {d : ResourceDefinition} (hd : reg.resource? resource = some d) {stream : StreamConfig}
    (hstream : stream ∈ streams)
    (hcaptures : listed stream.subjects (commandSubject resource operation) = true) :
    stream.name = str "CMD" := by
  obtain ⟨pattern, hpattern, hcovers⟩ := listed_iff.mp hcaptures
  simp only [streams, List.mem_cons, List.not_mem_nil, or_false] at hstream
  rcases hstream with rfl | rfl
  · rfl
  · obtain rfl := List.mem_singleton.mp hpattern
    have hevents : tokens busMarks (str "evt.>") = [str "evt", str ">"] := by decide
    rw [covers, hevents, commandSubject_eq,
      tokens_subject operation (by decide) (plain_of_resource? hplain hd).1] at hcovers
    have hhead := matchTokens_head (by constructor <;> decide) hcovers
    exact absurd hhead (by decide)

/-- The owner of a command can drive a consumer on the stream that captures it. -/
theorem command_consumer_granted (hplain : PlainKeys reg) (consumers : List ServiceName)
    {service : ServiceName} {resource : ResourceKey} {operation : Operation} {rule : OperationRule}
    (howner : reg.ownerOf resource = some service)
    (hrule : reg.ruleFor resource operation = some rule) (hcommand : rule.transport = .command)
    {stream : StreamConfig} (hstream : stream ∈ streams)
    (hcaptures : listed stream.subjects (commandSubject resource operation) = true)
    {durable : JSString} (hdurable : 46 ∉ durable) (filter : JSString) :
    ∀ call ∈ consumerCalls stream.name durable filter,
      (serviceUser reg consumers service).mayPublish call = true := by
  intro call hcall
  obtain ⟨d, hd, hservice⟩ := Option.map_eq_some_iff.mp howner
  obtain ⟨pattern, hpattern, hcovers⟩ := consumerApi_covers stream.name hdurable filter call hcall
  have hroute : Registry.routeOf resource d.owner operation rule ∈ reg.routes :=
    Registry.mem_routes.mpr ⟨resource, d, operation, rule, hd, hrule, rfl⟩
  have hconsumed : stream.name ∈ consumedStreams reg consumers service := by
    rw [consumedStreams, mem_distinct, List.mem_append]
    exact .inl (mem_commandStreams.mpr
      ⟨⟨_, hroute, hservice, hcommand⟩, name_of_captures hplain hd hstream hcaptures⟩)
  have hapi : pattern ∈ jetstreamApi reg consumers service := by
    rw [jetstreamApi, if_neg (List.length_pos_of_mem hconsumed).ne']
    simp only [List.cons_append, List.mem_cons, List.mem_append, List.mem_flatMap]
    exact .inr (.inl ⟨_, hconsumed, hpattern⟩)
  obtain ⟨responses, hpermissions⟩ := @serviceUser_permissions reg consumers service
  rw [mayPublish_iff hpermissions, listed_iff]
  exact ⟨pattern, mem_sorted.mpr (List.mem_append_right _ hapi), hcovers⟩

/-! ## The list -/

/-- The users are the gateway, one for each service and three more, if the
consumers are known. -/
theorem users_eq_some {list : List BusUser} (h : users reg = some list) :
    ∃ consumers, list = gatewayUser reg :: services.map (serviceUser reg consumers) ++
      [bootstrapUser, observerUser, sysadminUser] := by
  obtain ⟨consumers, -, hlist⟩ := Option.bind_eq_some_iff.mp h
  exact ⟨consumers, (Option.some.inj hlist).symm⟩

theorem user_of_name {list : List BusUser} (h : users reg = some list) {user user' : BusUser}
    (hmem : user ∈ list) (hmem' : user' ∈ list) (hname : user.name = user'.name) : user = user' := by
  obtain ⟨consumers, rfl⟩ := users_eq_some h
  have hnames : ((gatewayUser reg :: services.map (serviceUser reg consumers) ++
      [bootstrapUser, observerUser, sysadminUser]).map (·.name)).Nodup := by
    have hclosed : [str "gateway", str "projects", str "identity", str "billing", str "audit",
        str "bootstrap", str "observer", str "sysadmin"].Nodup := by decide
    exact hclosed
  exact List.inj_on_of_nodup_map hnames hmem hmem' hname

/-- **The list grants the routes.**  On the subjects the platform speaks on, the
gateway publishes exactly what `dispatch` addresses and subscribes to nothing;
a service publishes exactly the events of what it owns and subscribes exactly
to the rpc subjects its runtime binds; bootstrap does neither; and the owner of
a command may create, inspect and pull a consumer on the stream that captures
it. -/
theorem bus_permissions_exact (reg : Registry) (hplain : PlainKeys reg) {list : List BusUser}
    (husers : users reg = some list) :
    (∀ user ∈ list, ∀ subject, OnBus subject →
      (user.name = str "gateway" →
        (user.mayPublish subject = true ↔ ∃ resource operation rule,
          reg.ruleFor resource operation = some rule ∧
            dispatchSubject rule resource operation = subject) ∧
        user.maySubscribe subject = false) ∧
      (∀ service : ServiceName, user.name = service.name →
        (user.mayPublish subject = true ↔ ∃ resource operation rule,
          reg.ownerOf resource = some service ∧ reg.ruleFor resource operation = some rule ∧
            rule.audit = true ∧ eventSubject resource operation = subject) ∧
        ∀ (Effect : Type) (handlers : List (HandlerEntry Effect)) (rt : ServiceRuntime reg Effect),
          defineService reg service handlers = .ok rt →
            (user.maySubscribe subject = true ↔
              ∃ b ∈ rt.bindings, b.route.transport = .rpc ∧ b.route.subject = subject)) ∧
      (user.name = str "bootstrap" →
        user.mayPublish subject = false ∧ user.maySubscribe subject = false)) ∧
    ∀ user ∈ list, ∀ service : ServiceName, user.name = service.name →
      ∀ resource operation rule, reg.ownerOf resource = some service →
        reg.ruleFor resource operation = some rule → rule.transport = .command →
        ∀ stream ∈ streams, listed stream.subjects (commandSubject resource operation) = true →
          ∀ durable filter : JSString, 46 ∉ durable →
            ∀ call ∈ consumerCalls stream.name durable filter, user.mayPublish call = true := by
  obtain ⟨consumers, hlist⟩ := users_eq_some husers
  have hgateway : gatewayUser reg ∈ list := by simp [hlist]
  have hbootstrap : bootstrapUser ∈ list := by simp [hlist]
  have hservice : ∀ service, serviceUser reg consumers service ∈ list := by
    intro service
    have hdeclared : service ∈ services := by cases service <;> decide
    rw [hlist]
    exact List.mem_append_left _ (List.mem_cons_of_mem _ (List.mem_map_of_mem hdeclared))
  constructor
  · intro user huser subject hsubject
    refine ⟨fun hname => ?_, fun service hname => ?_, fun hname => ?_⟩
    · obtain rfl := user_of_name husers huser hgateway hname
      exact gatewayUser_exact hplain hsubject
    · obtain rfl := user_of_name husers huser (hservice service) hname
      exact ⟨serviceUser_publish hplain consumers service hsubject,
        fun Effect handlers rt hboot => serviceUser_subscribe hplain consumers service hsubject hboot⟩
    · obtain rfl := user_of_name husers huser hbootstrap hname
      exact bootstrapUser_silent hsubject
  · intro user huser service hname resource operation rule howner hrule hcommand stream hstream
      hcaptures durable filter hdurable
    obtain rfl := user_of_name husers huser (hservice service) hname
    exact command_consumer_granted hplain consumers howner hrule hcommand hstream hcaptures hdurable
      filter

/-- Under the shipped registry, the identity service can pull the invitations it owes. -/
theorem shipped_invitations_pulled : ∃ list, users registry = some list ∧
    ∀ user ∈ list, user.name = str "identity" →
      ∀ call ∈ consumerCalls (str "CMD") (str "identity-member-create") (str "cmd.member.create"),
        user.mayPublish call = true := by
  have hsome : (users registry).isSome = true := by decide
  obtain ⟨list, hlist⟩ := Option.isSome_iff_exists.mp hsome
  have hplain : PlainKeys registry := by
    intro resource hresource
    revert resource
    decide
  obtain ⟨-, hcommands⟩ := bus_permissions_exact registry hplain hlist
  obtain ⟨rule, hrule, hcommand⟩ : ∃ rule, registry.ruleFor (str "member") .create = some rule ∧
      rule.transport = .command := ⟨_, rfl, by decide⟩
  refine ⟨list, hlist, fun user huser hname => ?_⟩
  exact hcommands user huser .identity hname (str "member") .create rule rfl hrule hcommand _
    List.mem_cons_self (by decide) (str "identity-member-create") (str "cmd.member.create")
    (by decide)

end Guardrail
