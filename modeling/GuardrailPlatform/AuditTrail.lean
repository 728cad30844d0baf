import GuardrailPlatform.HonestMessages
import GuardrailPlatform.JetStream
import GuardrailPlatform.RequestAuthenticity

/-!
# The audit trail and the meter

What a service completes is an event on the EVT stream, and two durable
consumers turn events into rows: the trail and the meter.  Both see every
event at least once and drop repeats by the request id, so a table is the list
of completed executions exactly as long as no two executions share an id.
-/

namespace Guardrail

open Js DedupLog

variable {Effect : Type*}

/-! ## What the consumers write -/

/-- An `audit_log` row, beside its request id and its time. -/
structure AuditRow where
  organizationId : JSString
  actorId : JSString
  actorRole : JSString
  resource : JSString
  operation : JSString
  outcome : JSString
deriving DecidableEq

/-- What the trail records of an event. -/
def auditRow (m : RequestMeta) : AuditRow :=
  { organizationId := m.orgId, actorId := m.userId, actorRole := m.role.name,
    resource := m.resource, operation := m.operation.name, outcome := str "success" }

/-- A unit Autumn was told about.  `event` is what it was told for. -/
structure TrackedUnit where
  customerId : JSString
  featureId : JSString
  value : ℕ
  event : ResourceKey × Operation
deriving DecidableEq

/-- What the meter tracks of an event. -/
def trackedUnit (reg : Registry) (m : RequestMeta) : Option TrackedUnit :=
  match reg.ruleFor m.resource m.operation with
  | none => none
  | some rule =>
    if ¬ rule.consumes then none
    else ((reg.resource? m.resource).bind (·.featureId)).map fun featureId =>
      { customerId := m.orgId, featureId, value := 1, event := (m.resource, m.operation) }

/-- The two durable consumers of `evt.>`. -/
inductive Consumer
  | auditTrail
  | billingMeter
deriving DecidableEq

/-- A table keyed by the request id. -/
abbrev EventTable (β : Type) := List (Entry JSString β)

/-- `record` and `track`: a request id that is there already changes nothing. -/
def EventTable.record {β : Type} (table : EventTable β) (row : RequestMeta → Option β)
    (m : RequestMeta) (now : ℤ) : EventTable β :=
  match row m with
  | none => table
  | some body => offer (fun _ => true) table { key := m.requestId, body, storedAt := now }

section Record

variable {β : Type} {table : EventTable β} {row : RequestMeta → Option β} {m : RequestMeta} {now : ℤ}

/-- A table only ever grows in front, so an older row stays where it was. -/
theorem suffix_record : table <:+ table.record row m now := by
  unfold EventTable.record
  split
  · exact List.suffix_rfl
  · exact suffix_offer _ _ _

/-- A request is recorded once, since a second row of its id would clash. -/
theorem nodup_record (h : (table.map Entry.key).Nodup) :
    ((table.record row m now).map Entry.key).Nodup := by
  unfold EventTable.record
  split
  · exact h
  · exact nodup_offer h

/-- A row is an older one, or the one that has just been recorded. -/
theorem mem_record {old : Entry JSString β} (h : old ∈ table.record row m now) :
    old ∈ table ∨ old.key = m.requestId ∧ row m = some old.body := by
  unfold EventTable.record at h
  split at h
  · exact .inl h
  · rename_i body hbody
    rcases mem_offer h with rfl | h
    · exact .inr ⟨rfl, hbody⟩
    · exact .inl h

/-- After recording there is a row of the request, this time's or an earlier
one's. -/
theorem exists_record {body : β} (h : row m = some body) :
    ∃ old ∈ table.record row m now, old.key = m.requestId := by
  simp only [EventTable.record, h]
  exact exists_key_offer _ _ _

end Record

/-! ## Runs -/

inductive TrailEvent
  /-- A handler settles, and its event is published. -/
  | handled (d : Delivery) (execution : Execution) (outcome : PublishOutcome) (publishedAt : ℤ)
  /-- A consumer receives a message. -/
  | consumed (consumer : Consumer) (subject : JSString) (raw : Json) (now : ℤ)

namespace Platform

variable (P : Platform Effect)

/-- The EVT stream after a history. -/
def evtStream : List TrailEvent → Stream
  | [] => []
  | .handled d execution outcome publishedAt :: earlier =>
    match P.screen d with
    | .refused .. => evtStream earlier
    | .admitted b m _ =>
      match (P.settle b m execution outcome.returned).event with
      | none => evtStream earlier
      | some (subject, e) => (publishEvent (evtStream earlier) publishedAt subject e outcome).1
  | .consumed .. :: earlier => evtStream earlier

/-- The table of a consumer after a history. -/
def eventTable {β : Type} (consumer : Consumer) (row : RequestMeta → Option β) :
    List TrailEvent → EventTable β
  | [] => []
  | .handled .. :: earlier => eventTable consumer row earlier
  | .consumed consumer' subject raw now :: earlier =>
    if consumer' = consumer then
      match P.consume raw subject with
      | none => eventTable consumer row earlier
      | some m => (eventTable consumer row earlier).record row m now
    else eventTable consumer row earlier

def auditLog (history : List TrailEvent) : EventTable AuditRow :=
  P.eventTable .auditTrail (fun m => some (auditRow m)) history

def usageLog (history : List TrailEvent) : EventTable TrackedUnit :=
  P.eventTable .billingMeter (trackedUnit P.reg) history

/-- The metas of the executions that were answered `ok: true`. -/
def succeeded : List TrailEvent → List RequestMeta
  | [] => []
  | .handled d execution outcome _ :: earlier =>
    match P.screen d with
    | .refused .. => succeeded earlier
    | .admitted b m _ =>
      match (P.settle b m execution outcome.returned).reply with
      | some (.ok ..) => m :: succeeded earlier
      | _ => succeeded earlier
  | .consumed .. :: earlier => succeeded earlier

/-- Consumers receive what is on the stream, in any order and any number of times. -/
def TrailAllowed (history : List TrailEvent) : TrailEvent → Prop
  | .handled .. => True
  | .consumed _ subject raw _ => ∃ entry ∈ P.evtStream history, entry.body = (subject, raw)

/-- An execution whose event reaches the stream is the first of its request
id, and is answered `ok: true`. -/
def Once (history : List TrailEvent) : TrailEvent → Prop
  | .handled d execution outcome _ => ∀ b m payload data, P.screen d = .admitted b m payload →
    b.route.event.isSome → execution = .returned data → outcome.reached = true →
    (∀ entry ∈ P.evtStream history, entry.key ≠ eventId m.requestId) ∧ outcome.returned = true ∧
      ∃ text, canonicalJson data = some text
  | .consumed .. => True

/-- A run whose executions all meet the condition. -/
def OnceRun (history : List TrailEvent) : Prop :=
  Trace.Run (fun earlier event => P.TrailAllowed earlier event ∧ P.Once earlier event) history

/-- Does the registry audit the operation? -/
def Audits (m : RequestMeta) : Bool :=
  (P.reg.findRoute m.resource m.operation).any (·.event.isSome)

/-- The metas of the audited executions that were answered `ok: true`. -/
def auditedSuccesses (history : List TrailEvent) : List RequestMeta :=
  (P.succeeded history).filter P.Audits

variable {P}

/-! ## One execution -/

/-- The platform audits an admitted call exactly where its route has an event. -/
theorem audits_of_screen {d : Delivery} {b : Binding Effect} {m : RequestMeta} {payload : Value}
    (hscreen : P.screen d = .admitted b m payload) : P.Audits m = b.route.event.isSome := by
  obtain ⟨r, hpassed⟩ := passed_of_screen hscreen
  rw [Audits, hpassed.declared, hpassed.bound.2]
  rfl

/-- What a handled call adds to the event stream: the event it published, or
nothing. -/
theorem evtStream_of_event {d : Delivery} {b : Binding Effect} {m : RequestMeta} {payload : Value}
    {execution : Execution} {outcome : PublishOutcome} (publishedAt : ℤ)
    (history : List TrailEvent) (hscreen : P.screen d = .admitted b m payload) :
    P.evtStream (.handled d execution outcome publishedAt :: history) =
      match (P.settle b m execution outcome.returned).event with
      | none => P.evtStream history
      | some (subject, e) =>
        (publishEvent (P.evtStream history) publishedAt subject e outcome).1 := by
  rw [evtStream, hscreen]

/-- An execution of an audited operation whose reply is `ok` is counted among the successes,
as the newest of them. -/
theorem auditedSuccesses_of_ok {d : Delivery} {b : Binding Effect} {m : RequestMeta}
    {payload : Value} {execution : Execution} {outcome : PublishOutcome} {reply : ReplyEnvelope}
    (publishedAt : ℤ) (history : List TrailEvent) (hscreen : P.screen d = .admitted b m payload)
    (haudited : b.route.event.isSome = true)
    (hreply : (P.settle b m execution outcome.returned).reply = some reply)
    (hok : reply.isOk = true) :
    P.auditedSuccesses (.handled d execution outcome publishedAt :: history) =
      m :: P.auditedSuccesses history := by
  cases reply with
  | ok requestId signature data =>
      simp only [auditedSuccesses, succeeded, hscreen, hreply]
      exact List.filter_cons_of_pos ((audits_of_screen hscreen).trans haudited)
  | refused => cases hok

/-- A call without an event, or one that is refused, adds no audited success. -/
theorem auditedSuccesses_of_refused {d : Delivery} {b : Binding Effect} {m : RequestMeta}
    {payload : Value} {execution : Execution} {outcome : PublishOutcome} (publishedAt : ℤ)
    (history : List TrailEvent) (hscreen : P.screen d = .admitted b m payload)
    (hrefused : b.route.event = none ∨ ∀ reply,
      (P.settle b m execution outcome.returned).reply = some reply → reply.isOk = false) :
    P.auditedSuccesses (.handled d execution outcome publishedAt :: history) =
      P.auditedSuccesses history := by
  simp only [auditedSuccesses, succeeded, hscreen]
  split
  · rename_i requestId signature data hreply
    rcases hrefused with hnone | hrefused
    · refine List.filter_cons_of_neg ?_
      rw [audits_of_screen hscreen, hnone]
      simp
    · exact absurd (hrefused _ hreply) (by simp [ReplyEnvelope.isOk])
  · rfl

/-- An execution adds its event and its success to the trail together, or it adds neither of
them. -/
theorem handled_step {history : List TrailEvent} {d : Delivery} {execution : Execution}
    {outcome : PublishOutcome} {publishedAt : ℤ}
    (honce : P.Once history (.handled d execution outcome publishedAt)) :
    (∃ m entry, P.evtStream (.handled d execution outcome publishedAt :: history) =
        entry :: P.evtStream history ∧
      P.auditedSuccesses (.handled d execution outcome publishedAt :: history) =
        m :: P.auditedSuccesses history ∧
      entry.key = eventId m.requestId ∧ P.consume entry.body.2 entry.body.1 = some m ∧
      ∀ old ∈ P.evtStream history, old.key ≠ entry.key) ∨
    (P.evtStream (.handled d execution outcome publishedAt :: history) = P.evtStream history ∧
      P.auditedSuccesses (.handled d execution outcome publishedAt :: history) =
        P.auditedSuccesses history) := by
  cases hscreen : P.screen d with
  | refused route error =>
      right
      simp only [auditedSuccesses, succeeded, evtStream, hscreen, and_self]
  | admitted b m payload =>
      rw [evtStream_of_event publishedAt history hscreen]
      cases hevent : (P.settle b m execution outcome.returned).event with
      | none =>
          refine .inr ⟨rfl, auditedSuccesses_of_refused publishedAt history hscreen ?_⟩
          cases hroute : b.route.event with
          | none => exact .inl rfl
          | some subject =>
              right
              intro reply hreply
              refine Bool.eq_false_iff.mpr ?_
              intro hok
              -- a success of an audited operation has its event
              obtain ⟨data, rfl, -⟩ := returned_of_settle hreply hok
              obtain ⟨e, -, hsettle⟩ := @settle_returned P.crypto P.secret b.route subject m data
                outcome.returned hroute
              rw [Platform.settle, hsettle] at hevent
              cases hevent
      | some published =>
          obtain ⟨subject, e⟩ := published
          obtain ⟨hroute, he, data, rfl⟩ := settle_event hevent
          obtain ⟨e', he', hsettle⟩ := @settle_returned P.crypto P.secret b.route subject m data
            outcome.returned hroute
          obtain rfl := Option.some.inj (he.symm.trans he')
          have hm : e.requestMeta = m := (eventEnvelope_eq_some.mp he).1
          cases hreached : outcome.reached with
          | false =>
              refine .inr ⟨publish_of_unreached hreached,
                auditedSuccesses_of_refused publishedAt history hscreen (.inr ?_)⟩
              intro reply hreply
              have hthrew : outcome.returned ≠ true := by
                intro hreturned
                rw [PublishOutcome.reached_of_returned hreturned] at hreached
                cases hreached
              rw [Platform.settle, hsettle] at hreply
              dsimp only at hreply
              rw [if_neg hthrew] at hreply
              obtain ⟨signature, rfl, -⟩ := reject_eq_some.mp hreply
              rfl
          | true =>
              obtain ⟨hfresh, hreturned, text, htext⟩ :=
                honce b m payload data hscreen (by rw [hroute]; rfl) rfl hreached
              obtain ⟨raw, hraw, hconsume⟩ := event_consumed hscreen hevent
              obtain ⟨signature, hsucceed⟩ := @succeed_of_canonical P.crypto P.secret m data text htext
              have hreply : (P.settle b m (.returned data) outcome.returned).reply =
                  some (.ok m.requestId signature data) := by
                rw [Platform.settle, hsettle]
                dsimp only
                rw [if_pos hreturned, hsucceed]
              refine .inl ⟨m, ⟨eventId m.requestId, (subject, raw), publishedAt⟩, ?_,
                auditedSuccesses_of_ok publishedAt history hscreen (by rw [hroute]; rfl) hreply rfl,
                rfl, hconsume, hfresh⟩
              dsimp only
              rw [publishEvent, publish_of_encode hraw, hm, if_pos hreached]
              exact store_of_fresh (remembers_of_fresh hfresh)

/-! ## Over a whole run -/

/-- The stream is the list of audited successes, and no two share their id. -/
structure StreamInv (P : Platform Effect) (history : List TrailEvent) : Prop where
  events : (P.evtStream history).map (fun entry =>
      (entry.key, P.consume entry.body.2 entry.body.1)) =
    (P.auditedSuccesses history).map fun m => (eventId m.requestId, some m)
  nodup : ((P.auditedSuccesses history).map (·.requestId)).Nodup

/-- What is known of the event stream holds after every run, by induction on it. -/
theorem OnceRun.streamInv {history : List TrailEvent} (h : P.OnceRun history) :
    P.StreamInv history := by
  refine h.invariant ⟨rfl, .nil⟩ ?_
  intro history event hrun hinv ⟨hallowed, honce⟩
  cases event with
  | consumed consumer subject raw now => exact ⟨hinv.events, hinv.nodup⟩
  | handled d execution outcome publishedAt =>
      rcases handled_step honce with ⟨m, entry, hstream, hsuccesses, hkey, hconsume, hfresh⟩ |
        ⟨hstream, hsuccesses⟩
      · refine ⟨?_, ?_⟩
        · rw [hstream, hsuccesses, List.map_cons, List.map_cons, hinv.events, hkey, hconsume]
        · rw [hsuccesses, List.map_cons, List.nodup_cons]
          refine ⟨?_, hinv.nodup⟩
          intro hmem
          obtain ⟨m', hm', hsame⟩ := List.mem_map.mp hmem
          have hold : (eventId m'.requestId, some m') ∈ (P.evtStream history).map fun entry =>
              (entry.key, P.consume entry.body.2 entry.body.1) := by
            rw [hinv.events]
            exact List.mem_map.mpr ⟨m', hm', rfl⟩
          obtain ⟨old, hold, hpair⟩ := List.mem_map.mp hold
          obtain ⟨holdkey, -⟩ := Prod.mk.inj hpair
          exact hfresh old hold (by rw [holdkey, hkey, hsame])
      · exact ⟨by rw [hstream, hsuccesses]; exact hinv.events, by rw [hsuccesses]; exact hinv.nodup⟩

/-- The rows a consumer makes of the audited successes. -/
def rowsOf {β : Type} (row : RequestMeta → Option β) (ms : List RequestMeta) :
    List (JSString × β) :=
  ms.filterMap fun m => (row m).map (m.requestId, ·)

/-- A row stands for an event that has one, under the event's request id. -/
theorem mem_rowsOf {β : Type} {row : RequestMeta → Option β} {ms : List RequestMeta}
    {pair : JSString × β} :
    pair ∈ rowsOf row ms ↔ ∃ m ∈ ms, ∃ body, row m = some body ∧ (m.requestId, body) = pair := by
  simp [rowsOf]

/-- Events of distinct requests make rows of distinct ids, whichever of them make a row at
all. -/
theorem rowsOf_nodup {β : Type} (row : RequestMeta → Option β) {ms : List RequestMeta}
    (h : (ms.map (·.requestId)).Nodup) : ((rowsOf row ms).map Prod.fst).Nodup := by
  refine h.sublist ?_
  induction ms with
  | nil => exact List.Sublist.slnil
  | cons m ms ih =>
      have hms := ih (List.nodup_cons.mp h).2
      rw [rowsOf, List.filterMap_cons]
      cases row m with
      | none => exact hms.cons _
      | some body => exact hms.cons_cons _

/-- Every row is of an audited success, no id has two, and every event that
was received has one. -/
structure TableInv {β : Type} (P : Platform Effect) (consumer : Consumer)
    (row : RequestMeta → Option β) (history : List TrailEvent) : Prop where
  nodup : ((P.eventTable consumer row history).map Entry.key).Nodup
  sound : ∀ old ∈ P.eventTable consumer row history,
    (old.key, old.body) ∈ rowsOf row (P.auditedSuccesses history)
  complete : ∀ subject raw now m body, .consumed consumer subject raw now ∈ history →
    P.consume raw subject = some m → row m = some body →
    ∃ old ∈ P.eventTable consumer row history, old.key = m.requestId

theorem subset_auditedSuccesses (event : TrailEvent) (history : List TrailEvent) :
    P.auditedSuccesses history ⊆ P.auditedSuccesses (event :: history) := by
  refine List.filter_subset _ ?_
  cases event with
  | consumed consumer subject raw now => exact List.Subset.refl _
  | handled d execution outcome publishedAt =>
      rw [succeeded]
      split
      · exact List.Subset.refl _
      · split
        · exact List.subset_cons_self _ _
        · exact List.Subset.refl _

theorem rowsOf_subset {β : Type} (row : RequestMeta → Option β) {ms ms' : List RequestMeta}
    (h : ms ⊆ ms') : rowsOf row ms ⊆ rowsOf row ms' := by
  intro pair hpair
  obtain ⟨m, hm, hrow⟩ := mem_rowsOf.mp hpair
  exact mem_rowsOf.mpr ⟨m, h hm, hrow⟩

/-- Every entry of the event stream is one a consumer can read, and what it reads is an
audited success. -/
theorem success_of_consumed {history : List TrailEvent} (hinv : P.StreamInv history)
    {subject : JSString} {raw : Json} (hstored : ∃ entry ∈ P.evtStream history,
      entry.body = (subject, raw)) :
    ∃ m ∈ P.auditedSuccesses history, P.consume raw subject = some m := by
  obtain ⟨entry, hentry, hbody⟩ := hstored
  have hmem := List.mem_map_of_mem (f := fun entry : Entry JSString (JSString × Json) =>
    (entry.key, P.consume entry.body.2 entry.body.1)) hentry
  rw [hinv.events] at hmem
  obtain ⟨m, hm, hpair⟩ := List.mem_map.mp hmem
  obtain ⟨-, hconsume⟩ := Prod.mk.inj hpair
  rw [hbody] at hconsume
  exact ⟨m, hm, hconsume.symm⟩

/-- What is known of a consumer's table holds after every run, by induction on
it. -/
theorem OnceRun.tableInv {β : Type} {history : List TrailEvent} (h : P.OnceRun history)
    (consumer : Consumer) (row : RequestMeta → Option β) : P.TableInv consumer row history := by
  refine h.invariant ⟨.nil, by simp [eventTable], by simp⟩ ?_
  intro history event hrun hinv h
  obtain ⟨hallowed, -⟩ := h
  have hrows := rowsOf_subset row (subset_auditedSuccesses (P := P) event history)
  cases event with
  | handled d execution outcome publishedAt =>
      refine ⟨hinv.nodup, fun old hold => hrows (hinv.sound old hold), ?_⟩
      intro subject raw now m body hmem
      rcases List.mem_cons.mp hmem with heq | hmem
      · cases heq
      · exact hinv.complete subject raw now m body hmem
  | consumed consumer' subject raw now =>
      obtain ⟨m, hm, hconsume⟩ := success_of_consumed (OnceRun.streamInv hrun) hallowed
      by_cases hconsumer : consumer' = consumer
      · subst hconsumer
        have htable : P.eventTable consumer' row (.consumed consumer' subject raw now :: history) =
            (P.eventTable consumer' row history).record row m now := by
          rw [eventTable, if_pos rfl, hconsume]
        refine ⟨by rw [htable]; exact nodup_record hinv.nodup, ?_, ?_⟩
        · intro old hold
          rw [htable] at hold
          rcases mem_record hold with hold | ⟨hkey, hbody⟩
          · exact hrows (hinv.sound old hold)
          · exact mem_rowsOf.mpr ⟨m, hm, old.body, hbody, by rw [hkey]⟩
        · intro subject' raw' now' m' body hmem hconsume' hbody
          rw [htable]
          rcases List.mem_cons.mp hmem with heq | hmem
          · obtain ⟨-, rfl, rfl, rfl⟩ := TrailEvent.consumed.inj heq
            obtain rfl := Option.some.inj (hconsume.symm.trans hconsume')
            exact exists_record hbody
          · obtain ⟨old, hold, hkey⟩ := hinv.complete subject' raw' now' m' body hmem hconsume' hbody
            exact ⟨old, suffix_record.subset hold, hkey⟩
      · have htable : P.eventTable consumer row (.consumed consumer' subject raw now :: history) =
            P.eventTable consumer row history := by
          rw [eventTable, if_neg hconsumer]
        refine ⟨by rw [htable]; exact hinv.nodup, ?_, ?_⟩
        · intro old hold
          rw [htable] at hold
          exact hrows (hinv.sound old hold)
        · intro subject' raw' now' m' body hmem hconsume' hbody
          rw [htable]
          rcases List.mem_cons.mp hmem with heq | hmem
          · exact absurd (TrailEvent.consumed.inj heq).1.symm hconsumer
          · exact hinv.complete subject' raw' now' m' body hmem hconsume' hbody

/-- A consumer has received everything the stream holds. -/
def Drained (P : Platform Effect) (consumer : Consumer) (history : List TrailEvent) : Prop :=
  ∀ entry ∈ P.evtStream history, ∃ now,
    .consumed consumer entry.body.1 entry.body.2 now ∈ history

/-- **A drained table** holds one row of every audited success that makes one. -/
theorem table_perm {β : Type} {history : List TrailEvent} (h : P.OnceRun history)
    (consumer : Consumer) (row : RequestMeta → Option β) (hdrained : P.Drained consumer history) :
    ((P.eventTable consumer row history).map fun old => (old.key, old.body)).Perm
      (rowsOf row (P.auditedSuccesses history)) := by
  have hstream := OnceRun.streamInv h
  have htable := OnceRun.tableInv h consumer row
  refine perm_of_complete htable.nodup (rowsOf_nodup row hstream.nodup) htable.sound ?_
  intro pair hpair
  obtain ⟨m, hm, body, hbody, rfl⟩ := mem_rowsOf.mp hpair
  have hevent : (eventId m.requestId, some m) ∈ (P.evtStream history).map fun entry =>
      (entry.key, P.consume entry.body.2 entry.body.1) := by
    rw [hstream.events]
    exact List.mem_map.mpr ⟨m, hm, rfl⟩
  obtain ⟨entry, hentry, hsame⟩ := List.mem_map.mp hevent
  obtain ⟨-, hconsume⟩ := Prod.mk.inj hsame
  obtain ⟨now, hconsumed⟩ := hdrained entry hentry
  exact htable.complete _ _ now m body hconsumed hconsume hbody

/-! ## Counting -/

/-- Successful executions of an operation for an organisation. -/
def successes (P : Platform Effect) (history : List TrailEvent) (orgId : JSString)
    (resource : ResourceKey) (operation : Operation) : ℕ :=
  (P.succeeded history).countP fun m =>
    m.orgId == orgId && m.resource == resource && m.operation == operation

/-- Rows of the trail about an operation for an organisation. -/
def auditRows (P : Platform Effect) (history : List TrailEvent) (orgId : JSString)
    (resource : ResourceKey) (operation : Operation) : ℕ :=
  (P.auditLog history).countP fun old => old.body.organizationId == orgId &&
    old.body.resource == resource && old.body.operation == operation.name

/-- Units metered for an operation and an organisation. -/
def unitsMetered (P : Platform Effect) (history : List TrailEvent) (orgId : JSString)
    (resource : ResourceKey) (operation : Operation) : ℕ :=
  (((P.usageLog history).filter fun old =>
    old.body.customerId == orgId && old.body.event == (resource, operation)).map
      (·.body.value)).sum

/-- What is metered is audited, and Autumn knows it. -/
def MetersAudited (reg : Registry) : Prop :=
  ∀ resource operation rule, reg.ruleFor resource operation = some rule → rule.consumes = true →
    rule.audit = true ∧ ((reg.resource? resource).bind (·.featureId)).isSome = true

/-- The platform audits an operation exactly where the rule the registry gives it says so.
-/
theorem audits_of_rule {m : RequestMeta} {rule : OperationRule}
    (hrule : P.reg.ruleFor m.resource m.operation = some rule) : P.Audits m = rule.audit := by
  obtain ⟨d, hd⟩ := Registry.resource?_of_ruleFor hrule
  rw [Audits, Registry.findRoute_of_rule hd hrule]
  cases haudit : rule.audit <;> simp [Registry.routeOf, haudit]

/-- Counting the successes of an audited operation among the audited ones leaves none of
them out. -/
theorem countP_auditedSuccesses {history : List TrailEvent} {orgId : JSString}
    {resource : ResourceKey} {operation : Operation} {rule : OperationRule}
    (hrule : P.reg.ruleFor resource operation = some rule) (haudit : rule.audit = true) :
    ((P.auditedSuccesses history).countP fun m =>
      m.orgId == orgId && m.resource == resource && m.operation == operation) =
      P.successes history orgId resource operation := by
  rw [auditedSuccesses, List.countP_filter, successes]
  refine List.countP_congr ?_
  intro m _
  simp only [Bool.and_eq_true, beq_iff_eq, and_iff_left_iff_imp]
  intro h
  obtain ⟨⟨-, rfl⟩, rfl⟩ := h
  exact (audits_of_rule hrule).trans haudit

/-- **The trail counts executions.**  Once its consumer has drained the stream, an
organisation has one row for each success of an audited operation. -/
theorem auditRows_eq {history : List TrailEvent} (h : P.OnceRun history)
    (hdrained : P.Drained .auditTrail history) {orgId : JSString} {resource : ResourceKey}
    {operation : Operation} {rule : OperationRule}
    (hrule : P.reg.ruleFor resource operation = some rule) (haudit : rule.audit = true) :
    P.auditRows history orgId resource operation =
      P.successes history orgId resource operation := by
  have hperm := table_perm h .auditTrail (fun m => some (auditRow m)) hdrained
  have hrows : rowsOf (fun m => some (auditRow m)) (P.auditedSuccesses history) =
      (P.auditedSuccesses history).map fun m => (m.requestId, auditRow m) := by
    simp [rowsOf]
  have hcount := hperm.countP_eq fun pair : JSString × AuditRow =>
    pair.2.organizationId == orgId && pair.2.resource == resource &&
      pair.2.operation == operation.name
  rw [hrows, List.countP_map, List.countP_map] at hcount
  rw [← countP_auditedSuccesses hrule haudit]
  refine hcount.trans (List.countP_congr ?_)
  intro m _
  have hname : m.operation.name = operation.name ↔ m.operation = operation :=
    ⟨fun hname => Operation.name_injective hname, congrArg Operation.name⟩
  simp [auditRow, hname]

/-- A unit is of the event's organisation and operation, and counts one. -/
theorem trackedUnit_eq_some {reg : Registry} {m : RequestMeta} {unit : TrackedUnit}
    (h : trackedUnit reg m = some unit) :
    unit.customerId = m.orgId ∧ unit.event = (m.resource, m.operation) ∧ unit.value = 1 := by
  unfold trackedUnit at h
  split at h
  · cases h
  · split at h
    · cases h
    · obtain ⟨featureId, -, rfl⟩ := Option.map_eq_some_iff.mp h
      exact ⟨rfl, rfl, rfl⟩

/-- Everything that consumes an allowance is metered, where the registry audits whatever it
meters. -/
theorem trackedUnit_isSome {reg : Registry} (hmeters : MetersAudited reg) {m : RequestMeta}
    {rule : OperationRule} (hrule : reg.ruleFor m.resource m.operation = some rule)
    (hconsumes : rule.consumes = true) : ∃ unit, trackedUnit reg m = some unit := by
  obtain ⟨-, hfeature⟩ := hmeters _ _ rule hrule hconsumes
  refine Option.isSome_iff_exists.mp ?_
  simp only [trackedUnit, hrule, hconsumes, not_true_eq_false, if_false, Option.isSome_map, hfeature]

/-- The units tracked for a consuming operation are as many as the metas that name it. -/
theorem sum_rowsOf_trackedUnit {reg : Registry} (hmeters : MetersAudited reg) {orgId : JSString}
    {resource : ResourceKey} {operation : Operation} {rule : OperationRule}
    (hrule : reg.ruleFor resource operation = some rule) (hconsumes : rule.consumes = true)
    (ms : List RequestMeta) :
    (((rowsOf (trackedUnit reg) ms).filter fun pair =>
      pair.2.customerId == orgId && pair.2.event == (resource, operation)).map
        (·.2.value)).sum =
      ms.countP fun m => m.orgId == orgId && m.resource == resource && m.operation == operation := by
  induction ms with
  | nil => rfl
  | cons m ms ih =>
      rw [rowsOf, List.filterMap_cons, List.countP_cons]
      cases hunit : trackedUnit reg m with
      | none =>
          have hother : (m.orgId == orgId && m.resource == resource && m.operation == operation) =
              false := by
            refine Bool.eq_false_iff.mpr ?_
            simp only [Bool.and_eq_true, beq_iff_eq, ne_eq]
            intro h
            obtain ⟨⟨-, rfl⟩, rfl⟩ := h
            obtain ⟨unit, hsome⟩ := trackedUnit_isSome hmeters hrule hconsumes
            rw [hunit] at hsome
            cases hsome
          rw [hother]
          exact ih
      | some unit =>
          obtain ⟨hcustomer, hevent, hvalue⟩ := trackedUnit_eq_some hunit
          have hsame : (unit.customerId == orgId && unit.event == (resource, operation)) =
              (m.orgId == orgId && m.resource == resource && m.operation == operation) := by
            rw [hcustomer, hevent, Bool.and_assoc]
            rfl
          dsimp only [Option.map_some]
          rw [List.filter_cons, hsame]
          split
          · rw [List.map_cons, List.sum_cons, hvalue, Nat.add_comm]
            exact congrArg (· + 1) ih
          · exact ih

/-- **The meter counts executions.**  Once drained, it has metered one unit for each success
of a consuming operation, where those are audited. -/
theorem unitsMetered_eq {history : List TrailEvent} (h : P.OnceRun history)
    (hmeters : MetersAudited P.reg) (hdrained : P.Drained .billingMeter history) {orgId : JSString}
    {resource : ResourceKey} {operation : Operation} {rule : OperationRule}
    (hrule : P.reg.ruleFor resource operation = some rule) (hconsumes : rule.consumes = true) :
    P.unitsMetered history orgId resource operation =
      P.successes history orgId resource operation := by
  have hperm := table_perm h .billingMeter (trackedUnit P.reg) hdrained
  obtain ⟨haudit, -⟩ := hmeters _ _ rule hrule hconsumes
  rw [← countP_auditedSuccesses hrule haudit,
    ← sum_rowsOf_trackedUnit hmeters hrule hconsumes (P.auditedSuccesses history)]
  have hsum := ((hperm.filter fun pair : JSString × TrackedUnit =>
    pair.2.customerId == orgId && pair.2.event == (resource, operation)).map (·.2.value)).sum_nat
  rw [List.filter_map, List.map_map] at hsum
  exact hsum

/-- **Exactly once.**  Where every execution whose event reaches the stream is
the first of its request id and is answered `ok: true`, the drained trail and
the drained meter count executions. -/
theorem exactly_once (P : Platform Effect) (hmeters : MetersAudited P.reg)
    (history : List TrailEvent) (hrun : P.OnceRun history)
    (hdrained : ∀ consumer, P.Drained consumer history) (orgId : JSString)
    (resource : ResourceKey) (operation : Operation) (rule : OperationRule)
    (hrule : P.reg.ruleFor resource operation = some rule) :
    (rule.audit = true → P.auditRows history orgId resource operation =
      P.successes history orgId resource operation) ∧
    (rule.consumes = true → P.unitsMetered history orgId resource operation =
      P.successes history orgId resource operation) :=
  ⟨fun haudit => auditRows_eq hrun (hdrained _) hrule haudit,
    fun hconsumes => unitsMetered_eq hrun hmeters (hdrained _) hrule hconsumes⟩

end Platform

/-- Metering needs every consuming operation to be audited, and in the shipped registry each
of them is. -/
theorem registry_metersAudited : Platform.MetersAudited registry := by
  intro resource operation rule hrule hconsumes
  obtain ⟨d, hd⟩ := Registry.resource?_of_ruleFor hrule
  have hall : (registry.resources.all fun entry => operations.all fun operation =>
      (entry.2.operations operation).all fun rule =>
        !rule.consumes || (rule.audit && entry.2.featureId.isSome)) = true := by
    decide
  have hentry := List.all_eq_true.mp hall _ (Registry.resource?_eq_some.mp hd)
  have hrules := List.all_eq_true.mp hentry operation (mem_operations operation)
  have hdeclared : d.operations operation = some rule := by
    rw [Registry.ruleFor, hd] at hrule
    exact hrule
  rw [hdeclared, Option.all_some, hconsumes] at hrules
  rw [hd]
  simpa using hrules

/-! ## Two removals in one batch -/

/-- The event of a removal reads back as the removal's meta, and each delivery under that
meta offers the stream this event and counts as one more success. -/
theorem remove_trail {d : Delivery} {b : Binding Unit} {payload : Value}
    (hscreen : shippedPlatform.screen d = .admitted b removeMeta payload) : ∃ raw,
    shippedPlatform.consume raw (str "evt.project.delete") = some removeMeta ∧
    ∀ d b payload, shippedPlatform.screen d = .admitted b removeMeta payload →
      ∀ (data : Json) publishedAt history,
        shippedPlatform.evtStream
            (.handled d (.returned data.toValue) .acknowledged publishedAt :: history) =
          (shippedPlatform.evtStream history).store publishedAt (str "evt.project.delete")
            (eventId (str "request-1")) raw ∧
        shippedPlatform.succeeded
            (.handled d (.returned data.toValue) .acknowledged publishedAt :: history) =
          removeMeta :: shippedPlatform.succeeded history := by
  obtain ⟨-, event, raw, -, henvelope, hraw, hconsume⟩ := remove_settles hscreen .null
  refine ⟨raw, hconsume, ?_⟩
  intro d b payload hscreen data publishedAt history
  obtain ⟨signature, event', -, hsettle, henvelope', -⟩ := remove_settles hscreen data
  obtain rfl := Option.some.inj (henvelope.symm.trans henvelope')
  have hid : event.requestMeta = removeMeta := (eventEnvelope_eq_some.mp henvelope).1
  constructor
  · rw [Platform.evtStream_of_event publishedAt history hscreen]
    simp only [PublishOutcome.returned, hsettle, publishEvent, publish_of_encode hraw, hid]
    rfl
  · simp only [Platform.succeeded, hscreen, PublishOutcome.returned, hsettle]

/-- The deliveries of a shared event. -/
def drain (raw : Json) : List TrailEvent :=
  [.consumed .billingMeter (str "evt.project.delete") raw 2000,
    .consumed .auditTrail (str "evt.project.delete") raw 2000]

/-- **A batch is audited once.**  Both removals are answered `ok: true` under
one request id, and the second event is dropped as a repeat of the first. -/
theorem batched_removals_audited_once : ∃ history,
    Trace.Run shippedPlatform.TrailAllowed history ∧
    (∀ consumer, shippedPlatform.Drained consumer history) ∧
    shippedPlatform.successes history (str "acme") (str "project") .delete = 2 ∧
    shippedPlatform.auditRows history (str "acme") (str "project") .delete = 1 := by
  obtain ⟨e₁, hcall₁, hmeta₁, hpayload₁⟩ := remove_honest .transparent (str "secret") (str "p1")
  obtain ⟨e₂, hcall₂, hmeta₂, hpayload₂⟩ := remove_honest .transparent (str "secret") (str "p2")
  obtain ⟨b₁, hscreen₁⟩ := remove_admitted hcall₁ hmeta₁ hpayload₁ 0
  obtain ⟨b₂, hscreen₂⟩ := remove_admitted hcall₂ hmeta₂ hpayload₂ 1
  obtain ⟨raw, hconsume, hhandled⟩ := remove_trail hscreen₁
  let executions : List TrailEvent :=
    [.handled (removeDelivery 1 (e₂.wire (removeBody (str "p2"))))
        (.returned (removeBody (str "p2")).toValue) .acknowledged 1000,
      .handled (removeDelivery 0 (e₁.wire (removeBody (str "p1"))))
        (.returned (removeBody (str "p1")).toValue) .acknowledged 1000]
  obtain ⟨hfirst, hfirst'⟩ := hhandled _ _ _ hscreen₁ (removeBody (str "p1")) 1000 []
  obtain ⟨hsecond, hsecond'⟩ := hhandled _ _ _ hscreen₂ (removeBody (str "p2")) 1000 [.handled
    (removeDelivery 0 (e₁.wire (removeBody (str "p1")))) (.returned (removeBody (str "p1")).toValue)
    .acknowledged 1000]
  have hstream : shippedPlatform.evtStream executions =
      [⟨eventId (str "request-1"), (str "evt.project.delete", raw), 1000⟩] := by
    rw [hsecond, hfirst]
    rfl
  have hsuccesses : shippedPlatform.succeeded executions = [removeMeta, removeMeta] := by
    rw [hsecond', hfirst']
    rfl
  have hlog : shippedPlatform.auditLog (drain raw ++ executions) =
      [⟨str "request-1", auditRow removeMeta, 2000⟩] := by
    simp only [Platform.auditLog, drain, List.cons_append, List.nil_append, Platform.eventTable,
      hconsume, reduceCtorEq, if_false, if_true]
    rfl
  refine ⟨drain raw ++ executions, ?_, ?_, ?_, ?_⟩
  · have hdelivered : ∃ entry ∈ shippedPlatform.evtStream executions,
        entry.body = (str "evt.project.delete", raw) := by
      rw [hstream]
      exact ⟨_, List.mem_singleton_self _, rfl⟩
    exact .next (.next (.next (.next .start trivial) trivial) hdelivered) hdelivered
  · intro consumer entry hentry
    have hentry : entry ∈ shippedPlatform.evtStream executions := hentry
    rw [hstream] at hentry
    obtain rfl := List.mem_singleton.mp hentry
    refine ⟨2000, ?_⟩
    cases consumer <;> simp [drain]
  · have hcount : shippedPlatform.succeeded (drain raw ++ executions) = [removeMeta, removeMeta] :=
      hsuccesses
    rw [Platform.successes, hcount]
    rfl
  · rw [Platform.auditRows, hlog]
    rfl

/-- A removal on its own is one success and one row of the trail, as the theorem says. -/
theorem lone_removal_audited : ∃ history,
    shippedPlatform.successes history (str "acme") (str "project") .delete = 1 ∧
    shippedPlatform.auditRows history (str "acme") (str "project") .delete =
      shippedPlatform.successes history (str "acme") (str "project") .delete := by
  obtain ⟨e, hcall, hmeta, hpayload⟩ := remove_honest .transparent (str "secret") (str "p1")
  obtain ⟨b, hscreen⟩ := remove_admitted hcall hmeta hpayload 0
  obtain ⟨raw, hconsume, hhandled⟩ := remove_trail hscreen
  let execution : TrailEvent := .handled (removeDelivery 0 (e.wire (removeBody (str "p1"))))
    (.returned (removeBody (str "p1")).toValue) .acknowledged 1000
  obtain ⟨hstream, hsucceeded⟩ := hhandled _ _ _ hscreen (removeBody (str "p1")) 1000 []
  have hstream : shippedPlatform.evtStream [execution] =
      [⟨eventId (str "request-1"), (str "evt.project.delete", raw), 1000⟩] := hstream
  have hdelivered : ∃ entry ∈ shippedPlatform.evtStream [execution],
      entry.body = (str "evt.project.delete", raw) := by
    rw [hstream]
    exact ⟨_, List.mem_singleton_self _, rfl⟩
  have honce : shippedPlatform.Once [] execution := by
    intro b' m payload data hscreen' haudited hdata hreached
    obtain rfl := Execution.returned.inj hdata
    exact ⟨fun _ h => absurd h List.not_mem_nil, rfl, _, canonicalJson_toValue _⟩
  have hrun : shippedPlatform.OnceRun (drain raw ++ [execution]) :=
    .next (.next (.next .start ⟨trivial, honce⟩) ⟨hdelivered, trivial⟩) ⟨hdelivered, trivial⟩
  have hdrained : ∀ consumer, shippedPlatform.Drained consumer (drain raw ++ [execution]) := by
    intro consumer entry hentry
    have hentry : entry ∈ shippedPlatform.evtStream [execution] := hentry
    rw [hstream] at hentry
    obtain rfl := List.mem_singleton.mp hentry
    refine ⟨2000, ?_⟩
    cases consumer <;> simp [drain]
  have hcount : shippedPlatform.succeeded (drain raw ++ [execution]) = [removeMeta] := hsucceeded
  refine ⟨drain raw ++ [execution], ?_, ?_⟩
  · rw [Platform.successes, hcount]
    rfl
  · exact (shippedPlatform.exactly_once registry_metersAudited _ hrun hdrained (str "acme")
      (str "project") .delete (mutationRule .admin false 5000) rfl).1 rfl

end Guardrail
