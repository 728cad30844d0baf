import GuardrailPlatform.Gateway
import GuardrailPlatform.RegistryData
import GuardrailPlatform.Trace

/-!
# The entitlements cache at the edge

`deps.ts` asks billing for an organisation's entitlements and keeps a usable
answer for thirty seconds.  Calls overlap: a call that misses suspends until
its request settles, and other calls, other settlements and invalidations
happen in between.

A run is the history of these events.  The cache after it is a function of it,
and what the cache holds is traced back to the reply that carried it.
-/

/-- What an `if` takes for true. -/
def Js.Value.isTruthy : Js.Value → Bool
  | .undefined => false
  | .null => false
  | .bool b => b
  | .number .nan => false
  | .number (.finite (.zero _)) => false
  | .string s => !s.isEmpty
  | _ => true

namespace Guardrail

open Js Trace

/-- `TTL_MS`. -/
def entitlementsTtlMs : ℤ := 30000

/-- The `timeoutMs` of the billing call. -/
def billingTimeoutMs : ℤ := 4000

structure CacheEntry where
  value : Value
  expiresAt : ℤ

/-- A call that missed the cache and waits for billing. -/
structure BillingCall where
  orgId : JSString
  requestId : JSString
  requestedAt : ℤ
deriving DecidableEq

/-- The module's state: its map, and the calls in flight. -/
structure Edge where
  cache : JSString → Option CacheEntry
  pending : List BillingCall

/-- What happens at the edge, each at a clock reading. -/
inductive EdgeEvent
  | ask (orgId requestId : JSString)
  | settle (call : BillingCall) (response : Response)
  | invalidate (orgId : JSString)

variable (crypto : Crypto) (secret : JSString) (reg : Registry)

/-- `EMPTY_ENTITLEMENTS`, as the object it is. -/
def emptySnapshot : Value :=
  .object [(str "plan", .string reg.defaultPlan), (str "usage", .object [])]

/-- `reply.data.entitlements`, where billing answered ok and it is truthy.
Everything else, an exception included, is `none`. -/
def usableEntitlements (call : BillingCall) (response : Response) : Option Value :=
  match signedEnvelopeFor crypto secret reg call.orgId (str "billing") .read call.requestId
    call.requestedAt, response with
  | some e, .message raw =>
    match rpcRequest crypto secret (rpcSubject (str "billing") .read) e raw with
    | .ok (.ok _ _ data) =>
      match data.member? (str "entitlements") with
      | some value => if value.isTruthy then some value else none
      | none => none
    | _ => none
  | _, _ => none

namespace Edge

def start : Edge := ⟨fun _ => none, []⟩

/-- An unexpired entry. -/
def hit (edge : Edge) (now : ℤ) (orgId : JSString) : Option Value :=
  match edge.cache orgId with
  | some entry => if entry.expiresAt > now then some entry.value else none
  | none => none

/-- The first half of `entitlements(orgId)`: served from the cache, or sent to billing. -/
def ask (edge : Edge) (now : ℤ) (orgId requestId : JSString) : Edge :=
  match edge.hit now orgId with
  | some _ => edge
  | none => { edge with pending := ⟨orgId, requestId, now⟩ :: edge.pending }

/-- The second half: what the call returns, and the cache it leaves. -/
def settle (edge : Edge) (now : ℤ) (call : BillingCall) (response : Response) : Value × Edge :=
  let pending := edge.pending.erase call
  match usableEntitlements crypto secret reg call response with
  | some value =>
    let entry : CacheEntry := ⟨value, now + entitlementsTtlMs⟩
    (value, { pending, cache := Function.update edge.cache call.orgId (some entry) })
  | none => (emptySnapshot reg, { edge with pending })

/-- `invalidateEntitlements`. -/
def invalidate (edge : Edge) (orgId : JSString) : Edge :=
  { edge with cache := Function.update edge.cache orgId none }

def step (edge : Edge) (now : ℤ) : EdgeEvent → Edge
  | .ask orgId requestId => edge.ask now orgId requestId
  | .settle call response => (edge.settle crypto secret reg now call response).2
  | .invalidate orgId => edge.invalidate orgId

/-- The edge after a history, newest event first. -/
def after : List (ℤ × EdgeEvent) → Edge
  | [] => start
  | (now, event) :: history => (after history).step crypto secret reg now event

/-- A settlement answers a call in flight, within the call's timeout. -/
def Allowed (history : List (ℤ × EdgeEvent)) : ℤ × EdgeEvent → Prop
  | (now, .settle call _) => call ∈ (after crypto secret reg history).pending ∧
      now ≤ call.requestedAt + billingTimeoutMs
  | _ => True

end Edge

/-! ## Where an entry comes from -/

/-- An ok billing reply for the organisation, received in the history, carried the value. -/
structure CarriedBy (history : List (ℤ × EdgeEvent)) (orgId : JSString) (value : Value)
    (receivedAt : ℤ) (call : BillingCall) (response : Response) : Prop where
  settled : (receivedAt, .settle call response) ∈ history
  asked : (call.requestedAt, .ask call.orgId call.requestId) ∈ history
  orgId : call.orgId = orgId
  usable : usableEntitlements crypto secret reg call response = some value
  timely : receivedAt ≤ call.requestedAt + billingTimeoutMs

variable {crypto secret reg}

/-- A value that an answer carried was carried by it whatever happens later. -/
theorem CarriedBy.cons {history : List (ℤ × EdgeEvent)} {orgId : JSString} {value : Value}
    {receivedAt : ℤ} {call : BillingCall} {response : Response}
    (h : CarriedBy crypto secret reg history orgId value receivedAt call response)
    (event : ℤ × EdgeEvent) :
    CarriedBy crypto secret reg (event :: history) orgId value receivedAt call response :=
  { h with
    settled := List.mem_cons_of_mem _ h.settled
    asked := List.mem_cons_of_mem _ h.asked }

/-- Every entry of the cache was carried by a billing reply for its organisation. -/
def EntriesCarried (crypto : Crypto) (secret : JSString) (reg : Registry)
    (history : List (ℤ × EdgeEvent)) : Prop :=
  ∀ orgId entry, (Edge.after crypto secret reg history).cache orgId = some entry →
    ∃ receivedAt call response,
      CarriedBy crypto secret reg history orgId entry.value receivedAt call response ∧
      entry.expiresAt = receivedAt + entitlementsTtlMs

/-- Every call in flight was asked for. -/
def CallsAsked (crypto : Crypto) (secret : JSString) (reg : Registry)
    (history : List (ℤ × EdgeEvent)) : Prop :=
  ∀ call ∈ (Edge.after crypto secret reg history).pending,
    (call.requestedAt, EdgeEvent.ask call.orgId call.requestId) ∈ history

theorem cache_ask (edge : Edge) (now : ℤ) (orgId requestId : JSString) :
    (edge.ask now orgId requestId).cache = edge.cache := by
  unfold Edge.ask
  split
  · rfl
  · rfl

/-- A failing outcome returns the default and leaves the cache as it was. -/
theorem settle_of_unusable {edge : Edge} {now : ℤ} {call : BillingCall} {response : Response}
    (h : usableEntitlements crypto secret reg call response = none) :
    (edge.settle crypto secret reg now call response).1 = emptySnapshot reg ∧
      (edge.settle crypto secret reg now call response).2.cache = edge.cache := by
  simp only [Edge.settle, h, and_self]

/-- A usable outcome is returned to the caller, and kept in the cache for its organisation
alone. -/
theorem settle_of_usable {edge : Edge} {now : ℤ} {call : BillingCall} {response : Response}
    {value : Value} (h : usableEntitlements crypto secret reg call response = some value) :
    (edge.settle crypto secret reg now call response).1 = value ∧
      (edge.settle crypto secret reg now call response).2.cache =
        Function.update edge.cache call.orgId (some ⟨value, now + entitlementsTtlMs⟩) := by
  simp only [Edge.settle, h, and_self]

/-- Settling a call takes it, and it alone, off the pending ones. -/
theorem pending_settle (edge : Edge) (now : ℤ) (call : BillingCall) (response : Response) :
    (edge.settle crypto secret reg now call response).2.pending = edge.pending.erase call := by
  unfold Edge.settle
  split
  · rfl
  · rfl

/-- Whatever event comes next, each pending call is still one that was asked for its
organisation. -/
theorem callsAsked_next {history : List (ℤ × EdgeEvent)} {event : ℤ × EdgeEvent}
    (h : CallsAsked crypto secret reg history) :
    CallsAsked crypto secret reg (event :: history) := by
  obtain ⟨now, event⟩ := event
  intro call hcall
  cases event with
  | ask orgId requestId =>
      simp only [Edge.after, Edge.step, Edge.ask] at hcall
      split at hcall
      · exact List.mem_cons_of_mem _ (h call hcall)
      · rcases List.mem_cons.mp hcall with rfl | hcall
        · exact List.mem_cons_self
        · exact List.mem_cons_of_mem _ (h call hcall)
  | settle settled response =>
      rw [Edge.after, Edge.step, pending_settle] at hcall
      exact List.mem_cons_of_mem _ (h call (List.mem_of_mem_erase hcall))
  | invalidate orgId => exact List.mem_cons_of_mem _ (h call hcall)

/-- Every event keeps the invariant that whatever the cache holds was carried by an answer.
-/
theorem entriesCarried_next {history : List (ℤ × EdgeEvent)} {event : ℤ × EdgeEvent}
    (hasked : CallsAsked crypto secret reg history)
    (h : EntriesCarried crypto secret reg history)
    (hallowed : Edge.Allowed crypto secret reg history event) :
    EntriesCarried crypto secret reg (event :: history) := by
  obtain ⟨now, event⟩ := event
  -- an entry that was there before keeps its reply
  have hkept : ∀ orgId entry, (Edge.after crypto secret reg history).cache orgId = some entry →
      ∃ receivedAt call response, CarriedBy crypto secret reg ((now, event) :: history) orgId
        entry.value receivedAt call response ∧ entry.expiresAt = receivedAt + entitlementsTtlMs := by
    intro orgId entry hentry
    obtain ⟨receivedAt, call, response, hcarried, hexpires⟩ := h orgId entry hentry
    exact ⟨receivedAt, call, response, hcarried.cons _, hexpires⟩
  intro orgId entry hentry
  cases event with
  | ask asked requestId =>
      rw [Edge.after, Edge.step, cache_ask] at hentry
      exact hkept orgId entry hentry
  | settle call response =>
      obtain ⟨hpending, htimely⟩ := hallowed
      rw [Edge.after, Edge.step] at hentry
      cases husable : usableEntitlements crypto secret reg call response with
      | none =>
          rw [(settle_of_unusable husable).2] at hentry
          exact hkept orgId entry hentry
      | some value =>
          rw [(settle_of_usable husable).2] at hentry
          by_cases horg : orgId = call.orgId
          · subst horg
            rw [Function.update_self] at hentry
            obtain rfl := Option.some.inj hentry
            exact ⟨now, call, response, ⟨List.mem_cons_self,
              List.mem_cons_of_mem _ (hasked call hpending), rfl, husable, htimely⟩, rfl⟩
          · rw [Function.update_of_ne horg] at hentry
            exact hkept orgId entry hentry
  | invalidate dropped =>
      by_cases horg : orgId = dropped
      · subst horg
        simp only [Edge.after, Edge.step, Edge.invalidate, Function.update_self] at hentry
        cases hentry
      · simp only [Edge.after, Edge.step, Edge.invalidate, Function.update_of_ne horg] at hentry
        exact hkept orgId entry hentry

/-- After every run, pending calls were asked and entries were carried by answers; by
induction on the run. -/
theorem entriesCarried_of_run {history : List (ℤ × EdgeEvent)}
    (h : Run (Edge.Allowed crypto secret reg) history) :
    CallsAsked crypto secret reg history ∧ EntriesCarried crypto secret reg history := by
  have hnext : ∀ history event, Run (Edge.Allowed crypto secret reg) history →
      (CallsAsked crypto secret reg history ∧ EntriesCarried crypto secret reg history) →
      Edge.Allowed crypto secret reg history event →
      CallsAsked crypto secret reg (event :: history) ∧
        EntriesCarried crypto secret reg (event :: history) := by
    intro history event _ hinv hallowed
    exact ⟨callsAsked_next hinv.1, entriesCarried_next hinv.1 hinv.2 hallowed⟩
  exact h.invariant ⟨nofun, nofun⟩ hnext

/-- **Bounded staleness.**  What the cache serves was carried by an ok billing
reply for the same organisation, received and requested recently; a failing
outcome returns the default and keeps the cache; and no entry is there that no
reply carried. -/
theorem entitlements_bounded_stale (history : List (ℤ × EdgeEvent))
    (hrun : Run (Edge.Allowed crypto secret reg) history) :
    (∀ now orgId value, (Edge.after crypto secret reg history).hit now orgId = some value →
      ∃ receivedAt call response,
        CarriedBy crypto secret reg history orgId value receivedAt call response ∧
        now - receivedAt < entitlementsTtlMs ∧
        now - call.requestedAt < entitlementsTtlMs + billingTimeoutMs) ∧
    (∀ now call response, usableEntitlements crypto secret reg call response = none →
      ((Edge.after crypto secret reg history).settle crypto secret reg now call response).1 =
          emptySnapshot reg ∧
        ((Edge.after crypto secret reg history).settle crypto secret reg now call response).2.cache =
          (Edge.after crypto secret reg history).cache) ∧
    ∀ orgId entry, (Edge.after crypto secret reg history).cache orgId = some entry →
      ∃ receivedAt call response,
        CarriedBy crypto secret reg history orgId entry.value receivedAt call response := by
  obtain ⟨-, hcarried⟩ := entriesCarried_of_run hrun
  refine ⟨?_, fun now call response h => settle_of_unusable h, ?_⟩
  · intro now orgId value hhit
    unfold Edge.hit at hhit
    split at hhit
    · rename_i entry hentry
      split at hhit
      · rename_i hlive
        obtain rfl := Option.some.inj hhit
        obtain ⟨receivedAt, call, response, hcarries, hexpires⟩ := hcarried orgId entry hentry
        have htimely := hcarries.timely
        exact ⟨receivedAt, call, response, hcarries, by omega, by omega⟩
      · cases hhit
    · cases hhit
  · intro orgId entry hentry
    obtain ⟨receivedAt, call, response, hcarries, -⟩ := hcarried orgId entry hentry
    exact ⟨receivedAt, call, response, hcarries⟩

/-! ## A reply that is kept -/

/-- The gateway's own envelope can always be signed, since its payload is the empty object.
-/
theorem signedEnvelopeFor_isSome (orgId : JSString) (resource : ResourceKey)
    (operation : Operation) (requestId : JSString) (issuedAt : ℤ) :
    ∃ e, signedEnvelopeFor crypto secret reg orgId resource operation requestId issuedAt = some e ∧
      e.requestMeta.requestId = requestId := by
  unfold signedEnvelopeFor
  dsimp only
  rw [signRequest_eq]
  obtain ⟨signature, hsignature⟩ := @Statement.sign_isSome crypto (.envelope .request _ (.object []))
    _ (canonicalJson_toValue (.object [])) secret
  exact ⟨_, Option.map_eq_some_iff.mpr ⟨signature, hsignature, rfl⟩, rfl⟩

/-- An answer that billing signed for a call, with entitlements that are something, is
usable for that call. -/
theorem usable_of_answered {call : BillingCall} {data : Json} {value : Value}
    (hrequest : 1 ≤ call.requestId.length) (hdata : data.unsign = data)
    (hvalue : data.toValue.member? (str "entitlements") = some value)
    (htruthy : value.isTruthy = true) :
    ∃ response, usableEntitlements crypto secret reg call response = some value := by
  obtain ⟨e, he, hid⟩ := @signedEnvelopeFor_isSome crypto secret reg call.orgId (str "billing")
    .read call.requestId call.requestedAt
  obtain ⟨signature, hsigned⟩ := @Statement.sign_isSome crypto
    (.reply (replyBindingOf e.requestMeta true) data.toValue) _ (canonicalJson_toValue data) secret
  have hproject : project data.toValue = .json data := by rw [project_toValue, hdata]
  obtain ⟨raw, reply, -, hparse, hok, hrequestId, hsignature, hanswered⟩ :=
    @parse_encode_reply (.ok call.requestId signature data.toValue) data hrequest
      (length_of_sign hsigned) hproject
  have haccepted : rpcRequest crypto secret (rpcSubject (str "billing") .read) e raw = .ok reply := by
    refine rpcRequest_ok.mpr ⟨hparse, hrequestId.trans hid.symm, verifyReply_iff.mpr ?_⟩
    rw [hok, hanswered, hsignature]
    exact hsigned
  refine ⟨.message raw, ?_⟩
  cases reply with
  | refused requestId signature error => cases hok
  | ok requestId signature answer =>
      obtain rfl : answer = data.toValue := hanswered
      simp only [usableEntitlements, he, haccepted, hvalue, htruthy, if_true]

/-- What billing says of an organisation on the pro plan. -/
def proAnswer : Json :=
  .object [(str "entitlements",
    .object [(str "plan", .string (str "pro")), (str "usage", .object [])])]

def acmeCall : BillingCall := ⟨str "acme", str "request-1", 0⟩

/-- A call that missed is answered, and what is cached then was carried by that answer. -/
theorem answer_kept : ∃ response,
    (∃ entry, (Edge.after .transparent (str "secret") registry
      [(40, .settle acmeCall response), (0, .ask (str "acme") (str "request-1"))]).cache
        (str "acme") = some entry) ∧
    ∀ orgId entry, (Edge.after .transparent (str "secret") registry
      [(40, .settle acmeCall response), (0, .ask (str "acme") (str "request-1"))]).cache orgId =
        some entry →
      ∃ receivedAt call answer, CarriedBy .transparent (str "secret") registry
        [(40, .settle acmeCall response), (0, .ask (str "acme") (str "request-1"))] orgId
        entry.value receivedAt call answer := by
  obtain ⟨response, husable⟩ := @usable_of_answered .transparent (str "secret") registry acmeCall
    proAnswer _ (by decide) rfl rfl rfl
  refine ⟨response, ⟨_, by
    rw [Edge.after, Edge.step, (settle_of_usable husable).2]
    exact Function.update_self ..⟩, ?_⟩
  have hrun : Run (Edge.Allowed .transparent (str "secret") registry)
      [(40, .settle acmeCall response), (0, .ask (str "acme") (str "request-1"))] :=
    .next (.next .start trivial) ⟨List.mem_cons_self, by decide⟩
  exact (entitlements_bounded_stale _ hrun).2.2

end Guardrail
