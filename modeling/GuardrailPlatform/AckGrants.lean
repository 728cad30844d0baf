import GuardrailPlatform.BusPermissions

/-!
# Whose deliveries a service may ack

A message a durable consumer holds is acked by publishing to a subject that
names the stream and the consumer; an ack takes the message out of that
consumer's queue.  Each service creates its own durable consumers, and
`generate-auth.ts` says that a service acks its own deliveries and nothing else.

The grant it gives is one pattern, `$JS.ACK.>`, for every service that consumes
any stream.  It reaches each consumer of each stream, so a service keeps to its
own deliveries exactly when it is given no grant at all.
-/

namespace Guardrail

open Js Subjects

/-! ## Deliveries -/

/-- The durable consumers a service's `main` creates, with their streams. -/
def durables (reg : Registry) : ServiceName → List (JSString × JSString)
  | .audit => [(str "EVT", str "audit-trail")]
  | .billing => [(str "EVT", str "billing-meter")]
  | service =>
    ((ownedRoutes reg service).filter fun route => route.transport == .command).map fun route =>
      (str "CMD",
        service.name ++ str "-" ++ route.resource ++ str "-" ++ route.operation.name)

/-- `$JS.ACK.<stream>.<consumer>.<...>`: a subject that acks a delivery. -/
def Acks (subject stream consumer : JSString) : Prop :=
  ∃ rest, rest ≠ [] ∧
    tokens busMarks subject = str "$JS" :: str "ACK" :: stream :: consumer :: rest

/-- Whatever the user may ack is a delivery of one of the service's consumers. -/
def AcksOwn (reg : Registry) (service : ServiceName) (user : BusUser) : Prop :=
  ∀ subject stream consumer, Acks subject stream consumer → user.mayPublish subject = true →
    (stream, consumer) ∈ durables reg service

/-- The service executes no command. -/
def OwnsNoCommand (reg : Registry) (service : ServiceName) : Prop :=
  ∀ route ∈ reg.routes, route.owner = service → route.transport = .rpc

variable {reg : Registry}

/-! ## The grant -/

/-- An acknowledgement's subject begins with two fixed tokens, whatever stream and consumer
stand behind them. -/
theorem tokens_ack (rest : JSString) : tokens busMarks (str "$JS.ACK." ++ rest) =
    str "$JS" :: str "ACK" :: tokens busMarks rest := by
  have hcut : str "$JS.ACK." ++ rest = str "$JS" ++ busMarks.dot :: (str "ACK" ++ busMarks.dot :: rest) :=
    rfl
  rw [hcut, tokens_append, tokens_append, tokens_of_notMem (by decide), tokens_of_notMem (by decide)]
  rfl

/-- The one pattern of the grant covers every acknowledgement, those of other services'
deliveries included. -/
theorem ack_covers (rest : JSString) :
    covers busMarks (str "$JS.ACK.>") (str "$JS.ACK." ++ rest) = true := by
  have hcut : ∀ word : JSString, str "$JS.ACK." ++ word = str "$JS.ACK" ++ str "." ++ word :=
    fun word => rfl
  have hpattern : str "$JS.ACK.>" = str "$JS.ACK" ++ str "." ++ str ">" := by decide
  rw [hpattern, hcut]
  exact covers_under (matches_rest rest)

/-- The subject pattern of an event covers no acknowledgement, since the two differ in their
first token. -/
theorem event_not_ack {route : SubjectRoute} (hroute : route ∈ reg.routes) {event : JSString}
    (hevent : route.event = some event) {subject stream consumer : JSString}
    (hack : Acks subject stream consumer) : covers busMarks event subject = false := by
  obtain ⟨rest, -, htokens⟩ := hack
  obtain ⟨resource, d, operation, rule, -, -, rfl⟩ := Registry.mem_routes.mp hroute
  simp only [Registry.routeOf] at hevent
  split at hevent
  · obtain rfl := Option.some.inj hevent
    have hfront : tokens busMarks (eventSubject resource operation) =
        str "evt" :: tokens busMarks (resource ++ str "." ++ operation.name) := by
      have hdot : str "." = [46] := by decide
      have hcut : eventSubject resource operation =
          str "evt" ++ busMarks.dot :: (resource ++ str "." ++ operation.name) := by
        simp [eventSubject_eq, hdot, busMarks]
      rw [hcut, tokens_append, tokens_of_notMem (by decide)]
      rfl
    rw [covers, hfront, htokens]
    by_contra hmatch
    rw [Bool.not_eq_false] at hmatch
    exact absurd (matchTokens_head (by constructor <;> decide) hmatch) (by decide)
  · cases hevent

/-- A service is given the grant to acknowledge exactly when it consumes one of the streams.
-/
theorem ack_granted_iff {consumers : List ServiceName} {service : ServiceName} :
    str "$JS.ACK.>" ∈ jetstreamApi reg consumers service ↔
      consumedStreams reg consumers service ≠ [] := by
  rw [jetstreamApi, Ne, ← List.length_eq_zero_iff]
  split
  · rename_i hnone
    simp [hnone]
  · rename_i hsome
    exact iff_of_true (List.mem_append_right _ List.mem_cons_self) hsome

/-- And it consumes one when it executes a command or is an event consumer. -/
theorem consumes_nothing_iff {consumers : List ServiceName} {service : ServiceName} :
    consumedStreams reg consumers service = [] ↔
      OwnsNoCommand reg service ∧ service ∉ consumers := by
  have hcommands : (∀ stream, stream ∉ commandStreams reg service) ↔ OwnsNoCommand reg service := by
    constructor
    · intro h route hroute howner
      cases htransport : route.transport with
      | rpc => rfl
      | command =>
          exact absurd (mem_commandStreams.mpr ⟨⟨route, hroute, howner, htransport⟩, rfl⟩) (h _)
    · intro h stream hstream
      obtain ⟨⟨route, hroute, howner, htransport⟩, -⟩ := mem_commandStreams.mp hstream
      rw [h route hroute howner] at htransport
      cases htransport
  have hevents : eventStream.toList = [str "EVT"] := by decide
  rw [List.eq_nil_iff_forall_not_mem, ← hcommands]
  simp only [consumedStreams, mem_distinct, List.mem_append, not_or, forall_and, hevents]
  apply and_congr_right
  intro
  by_cases hconsumer : service ∈ consumers <;> simp [hconsumer]

/-! ## Acking for another -/

/-- A delivery of a service other than the given one. -/
def foreignDelivery : ServiceName → JSString × JSString
  | .audit => (str "EVT", str "billing-meter")
  | _ => (str "EVT", str "audit-trail")

/-- The example's delivery is that of a consumer which no service's list of durables has. -/
theorem foreignDelivery_notMem (service : ServiceName) :
    foreignDelivery service ∉ durables reg service := by
  have hstream : str "EVT" ≠ str "CMD" := by decide
  cases service with
  | audit | billing => simp only [durables, foreignDelivery]; decide
  | projects | identity =>
      intro hmem
      obtain ⟨route, -, hdelivery⟩ := List.mem_map.mp hmem
      exact hstream (congrArg Prod.fst hdelivery).symm

/-- The ack of the first delivery of a consumer. -/
def ackOf (delivery : JSString × JSString) : JSString :=
  str "$JS.ACK." ++ (delivery.1 ++ str "." ++ delivery.2 ++ str ".1.1.1.0.0")

theorem ackOf_acks (service : ServiceName) :
    Acks (ackOf (foreignDelivery service)) (foreignDelivery service).1
      (foreignDelivery service).2 := by
  refine ⟨[str "1", str "1", str "1", str "0", str "0"], by decide, ?_⟩
  rw [ackOf, tokens_ack]
  cases service <;> decide

/-- A user acknowledges only its own deliveries exactly where it has none to
acknowledge. -/
theorem serviceUser_acks_own {consumers : List ServiceName} {service : ServiceName} :
    AcksOwn reg service (serviceUser reg consumers service) ↔
      OwnsNoCommand reg service ∧ service ∉ consumers := by
  obtain ⟨responses, hpermissions⟩ := @serviceUser_permissions reg consumers service
  rw [← consumes_nothing_iff]
  constructor
  · intro hown
    by_contra hconsumes
    apply @foreignDelivery_notMem reg service
    apply hown (ackOf (foreignDelivery service)) _ _ (ackOf_acks service)
    rw [mayPublish_iff hpermissions, listed_iff]
    exact ⟨_, mem_sorted.mpr (List.mem_append_right _ (ack_granted_iff.mpr hconsumes)),
      ack_covers _⟩
  · intro hnone subject stream consumer hack hpublish
    rw [mayPublish_iff hpermissions, listed_iff] at hpublish
    obtain ⟨pattern, hpattern, hcovers⟩ := hpublish
    rcases List.mem_append.mp (mem_sorted.mp hpattern) with hevent | hapi
    · obtain ⟨route, howned, hevent⟩ := List.mem_filterMap.mp hevent
      rw [event_not_ack (List.mem_filter.mp howned).1 hevent hack] at hcovers
      cases hcovers
    · rw [jetstreamApi, if_pos (List.length_eq_zero_iff.mpr hnone)] at hapi
      cases hapi

/-! ## The users of the list -/

/-- The services that consume events are those of the audit log and of billing. -/
theorem mem_eventConsumers {consumers : List ServiceName} (h : eventConsumers reg = some consumers)
    {service : ServiceName} : service ∈ consumers ↔
      reg.ownerOf (str "auditLog") = some service ∨ reg.ownerOf (str "billing") = some service := by
  obtain ⟨trail, htrail, h⟩ := Option.bind_eq_some_iff.mp h
  obtain ⟨meter, hmeter, h⟩ := Option.bind_eq_some_iff.mp h
  obtain rfl := Option.some.inj h
  rw [mem_distinct, htrail, hmeter]
  simp [eq_comm]

/-- **Acking one's own.**  The user of a service keeps to its own deliveries
exactly when the service executes no command and runs neither the trail nor the
meter, that is when it has nothing to ack. -/
theorem acks_own_iff (reg : Registry) {list : List BusUser} (husers : users reg = some list)
    {user : BusUser} (huser : user ∈ list) {service : ServiceName}
    (hname : user.name = service.name) :
    AcksOwn reg service user ↔
      OwnsNoCommand reg service ∧ reg.ownerOf (str "auditLog") ≠ some service ∧
        reg.ownerOf (str "billing") ≠ some service := by
  obtain ⟨consumers, hconsumers, hlist⟩ := Option.bind_eq_some_iff.mp husers
  have hmem : serviceUser reg consumers service ∈ list := by
    have hdeclared : service ∈ services := by cases service <;> decide
    rw [← Option.some.inj hlist]
    exact List.mem_append_left _ (List.mem_cons_of_mem _ (List.mem_map_of_mem hdeclared))
  obtain rfl := user_of_name husers huser hmem hname
  rw [serviceUser_acks_own, mem_eventConsumers hconsumers, not_or]

/-- The users of the shipped registry, with the two that consume events. -/
theorem shipped_users : ∃ list, users registry = some list ∧
    serviceUser registry [.audit, .billing] .audit ∈ list := by
  have hconsumers : eventConsumers registry = some [.audit, .billing] := by decide
  refine ⟨_, by rw [users, hconsumers]; rfl, ?_⟩
  simp [services]

/-- Under the shipped registry the audit service has no command, and still its
grant reaches further, since it runs the trail. -/
theorem audit_acks_own_iff : ∃ list, users registry = some list ∧ ∃ user ∈ list,
    (AcksOwn registry .audit user ↔
      OwnsNoCommand registry .audit ∧ registry.ownerOf (str "auditLog") ≠ some .audit ∧
        registry.ownerOf (str "billing") ≠ some .audit) := by
  obtain ⟨list, hlist, huser⟩ := shipped_users
  exact ⟨list, hlist, _, huser, acks_own_iff registry hlist huser rfl⟩

/-- The audit service may ack what the meter has not counted yet, under a
consumer it does not create. -/
theorem audit_acks_meter : ∃ list, users registry = some list ∧ ∃ user ∈ list,
    user.name = ServiceName.audit.name ∧
    user.mayPublish (str "$JS.ACK.EVT.billing-meter.1.1.1.0.0") = true ∧
    Acks (str "$JS.ACK.EVT.billing-meter.1.1.1.0.0") (str "EVT") (str "billing-meter") ∧
    (str "EVT", str "billing-meter") ∉ durables registry .audit ∧
    ¬ AcksOwn registry .audit user := by
  obtain ⟨list, hlist, huser⟩ := shipped_users
  have hsubject : str "$JS.ACK.EVT.billing-meter.1.1.1.0.0" = ackOf (foreignDelivery .audit) := by
    decide
  have hpublish : (serviceUser registry [.audit, .billing] .audit).mayPublish
      (str "$JS.ACK.EVT.billing-meter.1.1.1.0.0") = true := by
    obtain ⟨responses, hpermissions⟩ := @serviceUser_permissions registry [.audit, .billing] .audit
    have hgranted : str "$JS.ACK.>" ∈ jetstreamApi registry [.audit, .billing] .audit := by decide
    rw [mayPublish_iff hpermissions, listed_iff, hsubject]
    exact ⟨_, mem_sorted.mpr (List.mem_append_right _ hgranted), ack_covers _⟩
  have hacks : Acks (str "$JS.ACK.EVT.billing-meter.1.1.1.0.0") (str "EVT")
      (str "billing-meter") := by
    rw [hsubject]
    exact ackOf_acks .audit
  have hforeign : (str "EVT", str "billing-meter") ∉ durables registry .audit :=
    foreignDelivery_notMem .audit
  exact ⟨list, hlist, _, huser, rfl, hpublish, hacks, hforeign,
    fun hown => hforeign (hown _ _ _ hacks hpublish)⟩

end Guardrail
