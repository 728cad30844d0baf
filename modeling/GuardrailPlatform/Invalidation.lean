import GuardrailPlatform.EntitlementsCache

/-!
# Invalidation and requests in flight

`invalidateEntitlements` drops an organisation's entry.  A request that is
already on its way to billing is not dropped with it: its answer is kept when
it arrives, and is served from the cache for thirty seconds.  An invalidation is
final exactly in the runs where no such answer arrives.
-/

namespace Guardrail

open Js Trace

variable (crypto : Crypto) (secret : JSString) (reg : Registry)

namespace Edge

/-- The call whose answer an organisation's entry holds. -/
def writer : List (ℤ × EdgeEvent) → JSString → Option BillingCall
  | [], _ => none
  | (_, .ask _ _) :: history, orgId => writer history orgId
  | (_, .settle call response) :: history, orgId =>
      if call.orgId = orgId ∧ (usableEntitlements crypto secret reg call response).isSome then
        some call
      else writer history orgId
  | (_, .invalidate dropped) :: history, orgId =>
      if dropped = orgId then none else writer history orgId

/-- The call has been sent to billing. -/
def Issued (history : List (ℤ × EdgeEvent)) (call : BillingCall) : Prop :=
  ∃ earlier, earlier <:+ history ∧ call ∈ (after crypto secret reg earlier).pending

/-- The call's organisation has been invalidated since the call was sent. -/
def Overtaken (history : List (ℤ × EdgeEvent)) (call : BillingCall) : Prop :=
  ∃ later now earlier, history = later ++ (now, .invalidate call.orgId) :: earlier ∧
    Issued crypto secret reg earlier call

/-- No usable answer arrives for an overtaken call. -/
def InOrder (history : List (ℤ × EdgeEvent)) : ℤ × EdgeEvent → Prop
  | (_, .settle call response) =>
      (usableEntitlements crypto secret reg call response).isSome →
        ¬ Overtaken crypto secret reg history call
  | _ => True

/-- After an invalidation, what the cache serves came from a request sent after it. -/
def InvalidationFinal (history : List (ℤ × EdgeEvent)) : Prop :=
  ∀ later invalidatedAt orgId earlier,
    history = later ++ (invalidatedAt, .invalidate orgId) :: earlier →
    ∀ now value, (after crypto secret reg history).hit now orgId = some value →
      ∃ receivedAt call response,
        CarriedBy crypto secret reg history orgId value receivedAt call response ∧
        writer crypto secret reg history orgId = some call ∧
        ¬ Issued crypto secret reg earlier call

end Edge

variable {crypto secret reg}

/-! ## The answer an entry holds -/

/-- An entry's answer, and that nothing has dropped the entry since. -/
structure WrittenBy (crypto : Crypto) (secret : JSString) (reg : Registry)
    (history : List (ℤ × EdgeEvent)) (orgId : JSString) (value : Value) (call : BillingCall) :
    Prop where
  writer : Edge.writer crypto secret reg history orgId = some call
  carried : ∃ receivedAt response,
    CarriedBy crypto secret reg history orgId value receivedAt call response
  kept : ∃ later receivedAt response earlier,
    history = later ++ (receivedAt, .settle call response) :: earlier ∧
    (usableEntitlements crypto secret reg call response).isSome ∧
    ∀ now, (now, EdgeEvent.invalidate orgId) ∉ later

/-- An event that leaves the writer alone, and drops nothing of the organisation. -/
theorem WrittenBy.cons {history : List (ℤ × EdgeEvent)} {orgId : JSString} {value : Value}
    {call : BillingCall} {event : ℤ × EdgeEvent}
    (h : WrittenBy crypto secret reg history orgId value call)
    (hwriter : Edge.writer crypto secret reg (event :: history) orgId =
      Edge.writer crypto secret reg history orgId)
    (hevent : ∀ now, event ≠ (now, .invalidate orgId)) :
    WrittenBy crypto secret reg (event :: history) orgId value call := by
  obtain ⟨receivedAt, response, hcarried⟩ := h.carried
  obtain ⟨later, settledAt, answer, earlier, rfl, husable, hlater⟩ := h.kept
  refine ⟨hwriter.trans h.writer, ⟨receivedAt, response, hcarried.cons event⟩,
    event :: later, settledAt, answer, earlier, rfl, husable, ?_⟩
  intro now hmem
  rcases List.mem_cons.mp hmem with heq | hmem
  · exact hevent now heq.symm
  · exact hlater now hmem

/-- Every entry holds the answer of its writer. -/
def EntriesWritten (crypto : Crypto) (secret : JSString) (reg : Registry)
    (history : List (ℤ × EdgeEvent)) : Prop :=
  ∀ orgId entry, (Edge.after crypto secret reg history).cache orgId = some entry →
    ∃ call, WrittenBy crypto secret reg history orgId entry.value call

/-- Every event keeps it that cached values were written by an event of the
history. -/
theorem entriesWritten_next {history : List (ℤ × EdgeEvent)} {event : ℤ × EdgeEvent}
    (hasked : CallsAsked crypto secret reg history)
    (h : EntriesWritten crypto secret reg history)
    (hallowed : Edge.Allowed crypto secret reg history event) :
    EntriesWritten crypto secret reg (event :: history) := by
  obtain ⟨now, event⟩ := event
  intro orgId entry hentry
  cases event with
  | ask asked requestId =>
      rw [Edge.after, Edge.step, cache_ask] at hentry
      obtain ⟨call, hwritten⟩ := h orgId entry hentry
      exact ⟨call, hwritten.cons rfl (by simp)⟩
  | settle call response =>
      obtain ⟨hpending, htimely⟩ := hallowed
      rw [Edge.after, Edge.step] at hentry
      cases husable : usableEntitlements crypto secret reg call response with
      | none =>
          rw [(settle_of_unusable husable).2] at hentry
          obtain ⟨writer, hwritten⟩ := h orgId entry hentry
          exact ⟨writer, hwritten.cons (by simp [Edge.writer, husable]) (by simp)⟩
      | some value =>
          rw [(settle_of_usable husable).2] at hentry
          by_cases horg : orgId = call.orgId
          · subst horg
            rw [Function.update_self] at hentry
            obtain rfl := Option.some.inj hentry
            have hcarried : CarriedBy crypto secret reg ((now, .settle call response) :: history)
                call.orgId value now call response :=
              ⟨List.mem_cons_self, List.mem_cons_of_mem _ (hasked call hpending), rfl, husable,
                htimely⟩
            exact ⟨call, by simp [Edge.writer, husable], ⟨now, response, hcarried⟩,
              [], now, response, history, rfl, by simp [husable], by simp⟩
          · rw [Function.update_of_ne horg] at hentry
            obtain ⟨writer, hwritten⟩ := h orgId entry hentry
            exact ⟨writer, hwritten.cons (by simp [Edge.writer, Ne.symm horg]) (by simp)⟩
  | invalidate dropped =>
      by_cases horg : orgId = dropped
      · subst horg
        simp only [Edge.after, Edge.step, Edge.invalidate, Function.update_self] at hentry
        cases hentry
      · simp only [Edge.after, Edge.step, Edge.invalidate, Function.update_of_ne horg] at hentry
        obtain ⟨writer, hwritten⟩ := h orgId entry hentry
        have hne : dropped ≠ orgId := Ne.symm horg
        exact ⟨writer, hwritten.cons (by simp [Edge.writer, hne]) (by simp [hne])⟩

/-- Cached values were written by an event of the history, after every run. -/
theorem entriesWritten_of_run {history : List (ℤ × EdgeEvent)}
    (h : Run (Edge.Allowed crypto secret reg) history) :
    EntriesWritten crypto secret reg history := by
  apply h.invariant
  · intro orgId entry hentry
    cases hentry
  · intro history event hrun hwritten hallowed
    exact entriesWritten_next (entriesCarried_of_run hrun).1 hwritten hallowed

/-- What the cache serves at a hit is the answer of the call that wrote the entry. -/
theorem writtenBy_of_hit {history : List (ℤ × EdgeEvent)} {now : ℤ} {orgId : JSString}
    {value : Value} (h : Run (Edge.Allowed crypto secret reg) history)
    (hhit : (Edge.after crypto secret reg history).hit now orgId = some value) :
    ∃ call, WrittenBy crypto secret reg history orgId value call := by
  unfold Edge.hit at hhit
  split at hhit
  · rename_i entry hentry
    split at hhit
    · obtain rfl := Option.some.inj hhit
      exact entriesWritten_of_run h orgId entry hentry
    · cases hhit
  · cases hhit

/-- A usable answer is served as soon as it has been kept. -/
theorem hit_settled {history : List (ℤ × EdgeEvent)} {now : ℤ} {call : BillingCall}
    {response : Response} {value : Value}
    (husable : usableEntitlements crypto secret reg call response = some value) :
    (Edge.after crypto secret reg ((now, .settle call response) :: history)).hit now call.orgId =
      some value := by
  have hcache : (Edge.after crypto secret reg ((now, .settle call response) :: history)).cache
      call.orgId = some ⟨value, now + entitlementsTtlMs⟩ := by
    rw [Edge.after, Edge.step, (settle_of_usable husable).2, Function.update_self]
  have hlive : now + entitlementsTtlMs > now := by
    unfold entitlementsTtlMs
    omega
  simp only [Edge.hit, hcache, hlive, if_true]

/-! ## When an invalidation is final -/

/-- In a run with no late answer, an invalidation is final: what is served after it was
asked for after it. -/
theorem final_of_inOrder {history : List (ℤ × EdgeEvent)}
    (hrun : Run (Edge.Allowed crypto secret reg) history)
    (horder : ∀ event earlier, event :: earlier <:+ history →
      Edge.InOrder crypto secret reg earlier event) :
    Edge.InvalidationFinal crypto secret reg history := by
  intro later invalidatedAt orgId earlier hsplit now value hhit
  obtain ⟨call, hwritten⟩ := writtenBy_of_hit hrun hhit
  obtain ⟨receivedAt, response, hcarried⟩ := hwritten.carried
  refine ⟨receivedAt, call, response, hcarried, hwritten.writer, ?_⟩
  intro hissued
  obtain ⟨after, settledAt, answer, before, hwrite, husable, hafter⟩ := hwritten.kept
  have hordered := horder (settledAt, .settle call answer) before ⟨after, hwrite.symm⟩ husable
  apply hordered
  -- the invalidation precedes the settlement, since the entry has survived it
  rw [hsplit] at hwrite
  rcases List.append_eq_append_iff.mp hwrite with
    ⟨between, hsuffix, hrest⟩ | ⟨between, hsuffix, hrest⟩
  · cases between with
    | nil => cases hrest
    | cons event between =>
        obtain ⟨rfl, -⟩ := List.cons.inj hrest
        exact absurd (by rw [hsuffix]; simp) (hafter invalidatedAt)
  · cases between with
    | nil => cases hrest
    | cons event between =>
        obtain ⟨-, hbefore⟩ := List.cons.inj hrest
        exact ⟨between, invalidatedAt, earlier, by rw [hcarried.orgId, hbefore]; rfl, hissued⟩

/-- **When an invalidation is final.**  In every state of a run the cache serves
only what was requested after the organisation's invalidations, if and only if no
usable answer arrives for a call that was overtaken by one. -/
theorem invalidation_final_iff (history : List (ℤ × EdgeEvent))
    (hrun : Run (Edge.Allowed crypto secret reg) history) :
    (∀ reached, reached <:+ history → Edge.InvalidationFinal crypto secret reg reached) ↔
      ∀ event earlier, event :: earlier <:+ history →
        Edge.InOrder crypto secret reg earlier event := by
  constructor
  · intro hfinal event earlier hsuffix
    obtain ⟨now, event⟩ := event
    cases event with
    | ask orgId requestId => trivial
    | invalidate orgId => trivial
    | settle call response =>
        intro husable hovertaken
        obtain ⟨value, hvalue⟩ := Option.isSome_iff_exists.mp husable
        obtain ⟨later, invalidatedAt, before, hsplit, hissued⟩ := hovertaken
        obtain ⟨-, writer, -, -, hwriter, hfresh⟩ := hfinal _ hsuffix
          ((now, .settle call response) :: later) invalidatedAt call.orgId before
          (by rw [hsplit]; rfl) now value (hit_settled hvalue)
        have hcall : Edge.writer crypto secret reg ((now, .settle call response) :: earlier)
            call.orgId = some call := by simp [Edge.writer, husable]
        obtain rfl := Option.some.inj (hwriter.symm.trans hcall)
        exact hfresh hissued
  · intro horder reached hsuffix
    obtain ⟨later, rfl⟩ := hsuffix
    apply final_of_inOrder hrun.of_append
    intro event earlier hevent
    exact horder event earlier (hevent.trans (List.suffix_append _ _))

/-- Billing answers a call, and the organisation is invalidated afterwards. -/
def timelyAnswer (response : Response) : List (ℤ × EdgeEvent) :=
  [(60, .invalidate (str "acme")), (40, .settle acmeCall response),
    (0, .ask (str "acme") (str "request-1"))]

/-- The organisation is invalidated while its request is with billing. -/
def lateAnswer (response : Response) : List (ℤ × EdgeEvent) :=
  [(40, .settle acmeCall response), (20, .invalidate (str "acme")),
    (0, .ask (str "acme") (str "request-1"))]

/-- Where the answer comes before the invalidation, the invalidation is final at every
moment of the example. -/
theorem invalidation_final_timely : ∃ response,
    (usableEntitlements .transparent (str "secret") registry acmeCall response).isSome ∧
    ∀ reached, reached <:+ timelyAnswer response →
      Edge.InvalidationFinal .transparent (str "secret") registry reached := by
  obtain ⟨response, husable⟩ := @usable_of_answered .transparent (str "secret") registry acmeCall
    proAnswer _ (by decide) rfl rfl rfl
  have hrun : Run (Edge.Allowed .transparent (str "secret") registry) (timelyAnswer response) :=
    .next (.next (.next .start trivial) ⟨List.mem_cons_self, by decide⟩) trivial
  refine ⟨response, by rw [husable]; rfl, (invalidation_final_iff _ hrun).mpr ?_⟩
  intro event earlier hsuffix
  rcases List.suffix_cons_iff.mp hsuffix with heq | hsuffix
  · obtain ⟨rfl, -⟩ := List.cons.inj heq
    trivial
  · rcases List.suffix_cons_iff.mp hsuffix with heq | hsuffix
    · -- nothing but the request precedes the answer
      obtain ⟨rfl, rfl⟩ := List.cons.inj heq
      intro _ hovertaken
      obtain ⟨later, now, before, hsplit, -⟩ := hovertaken
      have hmem : (now, EdgeEvent.invalidate acmeCall.orgId) ∈
          [((0 : ℤ), EdgeEvent.ask (str "acme") (str "request-1"))] := by
        rw [hsplit]
        simp
      simp at hmem
    · obtain ⟨rfl, -⟩ := List.cons.inj
        ((List.suffix_cons_iff.mp hsuffix).resolve_right (by simp))
      trivial

/-- The late answer is kept, and a call is served what was requested before the
invalidation. -/
theorem late_answer_served : ∃ response value,
    Run (Edge.Allowed .transparent (str "secret") registry) (lateAnswer response) ∧
    (Edge.after .transparent (str "secret") registry (lateAnswer response)).hit 40 (str "acme") =
      some value ∧
    ¬ Edge.InvalidationFinal .transparent (str "secret") registry (lateAnswer response) := by
  obtain ⟨response, husable⟩ := @usable_of_answered .transparent (str "secret") registry acmeCall
    proAnswer _ (by decide) rfl rfl rfl
  have hrun : Run (Edge.Allowed .transparent (str "secret") registry) (lateAnswer response) :=
    .next (.next (.next .start trivial) trivial) ⟨List.mem_cons_self, by decide⟩
  have hhit := @hit_settled .transparent (str "secret") registry
    [(20, .invalidate (str "acme")), (0, .ask (str "acme") (str "request-1"))] 40 acmeCall response
    _ husable
  refine ⟨response, _, hrun, hhit, ?_⟩
  intro hfinal
  obtain ⟨-, writer, -, -, hwriter, hfresh⟩ := hfinal [(40, .settle acmeCall response)] 20
    (str "acme") [(0, .ask (str "acme") (str "request-1"))] rfl 40 _ hhit
  have hcall : Edge.writer .transparent (str "secret") registry (lateAnswer response)
      (str "acme") = some acmeCall := if_pos ⟨rfl, by rw [husable]; rfl⟩
  obtain rfl := Option.some.inj (hwriter.symm.trans hcall)
  exact hfresh ⟨_, List.suffix_rfl, List.mem_cons_self⟩

end Guardrail
