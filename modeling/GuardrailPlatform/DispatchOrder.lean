import GuardrailPlatform.Dialogue
import GuardrailPlatform.RateIsolation
import GuardrailPlatform.RequestAuthenticity

/-!
# The order of dispatch

`dispatch` asks as it goes: who calls, whether the limiter lets them, what
billing says, what time it is, and only then the bus.  `prepare` is given all of
these answers beforehand, as if they were known.

They come to the same.  Every conversation is an initial part of one fixed list
of questions, each asked once and about the caller's own organisation; what is
sent is what `prepare` signs of the answers given; and a call that is refused
asked nothing after its refusal and sent nothing.
-/

namespace Guardrail

open Js
open Dialogue (Ends Exchange)

/-! ## Questions -/

/-- What `dispatch` awaits, and the clock it reads. -/
inductive Question
  | identify
  | rateLimit (key : JSString) (limit : RateLimit)
  | entitlements (orgId : JSString)
  | now
  | publishCommand (subject : JSString) (e : Envelope)
  | rpcRequest (subject : JSString) (e : Envelope) (timeoutMs : ℤ)

/-- What it may be answered.  `none` is a dependency that threw; a publication is
stored or threw. -/
@[reducible] def Question.Answer : Question → Type
  | .identify => Option (Option GatewayIdentity)
  | .rateLimit _ _ => Option RateVerdict
  | .entitlements _ => Option Entitlements
  | .now => ℤ
  | .publishCommand _ _ => Bool
  | .rpcRequest _ _ _ => Response

abbrev Conversation := List (Exchange Question Question.Answer)

abbrev Dispatching := Dialogue Question Question.Answer (Except DispatchError Value)

section Dispatch

variable (crypto : Crypto) (secret : JSString) (reg : Registry) (contracts : ContractMap)
  (args : DispatchArgs)

/-- `fail`. -/
def fail (failure : GatewayFailure) : Dispatching := .done (.error (.failed failure))

def threw : Dispatching := .done (.error .threw)

/-- Step 8 on. -/
def send (definition : ResourceDefinition) (rule : OperationRule) (e : Envelope) : Dispatching :=
  let contract := contracts args.resource args.operation
  match rule.transport with
  | .command =>
    .ask (.publishCommand (commandSubject args.resource args.operation) e) fun stored : Bool =>
      if stored then .done (accept contract e.requestMeta.requestId) else threw
  | .rpc =>
    .ask (.rpcRequest (rpcSubject args.resource args.operation) e rule.timeoutMs) fun response =>
      .done (conclude crypto secret contract definition.owner
        (rpcSubject args.resource args.operation) e response)

/-- Steps 6 and 7, for a caller the limiter lets. -/
def prepareAndSend (definition : ResourceDefinition) (rule : OperationRule)
    (identity : GatewayIdentity) (verdict : RateVerdict) : Dispatching :=
  .ask (.entitlements identity.orgId) fun answer =>
    match answer with
    | none => threw
    | some entitlements =>
      match planGate reg args.resource rule entitlements with
      | some failure => fail failure
      | none =>
        .ask .now fun issuedAt =>
          let m := metaFor reg args identity rule
            { identity := some identity, verdict, entitlements, issuedAt }
          match (contracts args.resource args.operation).input args.input with
          | none => threw
          | some payload =>
            match signRequest crypto m payload secret with
            | none => threw
            | some signature =>
              send crypto secret contracts args definition rule { requestMeta := m, payload, signature }

/-- `dispatch`, as it awaits one answer after the other. -/
def dispatch : Dispatching :=
  match reg.resource? args.resource, reg.ruleFor args.resource args.operation with
  | some definition, some rule =>
    let permission := toPermission args.resource args.operation
    .ask .identify fun answer =>
      match answer with
      | none => threw
      | some none => fail (.coded .unauthorized (str "Sign in to continue."))
      | some (some identity) =>
        if identity.orgId.length = 0 then
          fail (.coded .noActiveOrg (str "Select an organisation to continue."))
        else if ¬ roleAtLeast identity.role rule.minRole then
          fail (.permissionDenied
            (str "This action needs the " ++ rule.minRole.name ++ str " role.") permission)
        else if ¬ can (reg.permissionsForRole identity.role) args.resource args.operation then
          fail (.permissionDenied (str "You do not have permission to do that.") permission)
        else
          match refusedRole args.input identity.role with
          | some refused =>
            fail (.permissionDenied (str "Your " ++ identity.role.name ++
              str " role cannot grant the " ++ refused ++ str " role.") permission)
          | none =>
            .ask (.rateLimit (limiterKey identity.orgId args.resource args.operation)
                definition.rateLimit) fun answer =>
              match answer with
              | none => threw
              | some verdict =>
                if ¬ verdict.ok then
                  fail (.rateLimited (str "Too many requests. Try again shortly.")
                    verdict.retryAfterSeconds)
                else prepareAndSend crypto secret reg contracts args definition rule identity verdict
  | _, _ => threw

end Dispatch

/-! ## What a conversation is -/

/-- A dependency threw. -/
def Threw : Exchange Question Question.Answer → Prop
  | ⟨.identify, answer⟩ => answer = none
  | ⟨.rateLimit _ _, answer⟩ => answer = none
  | ⟨.entitlements _, answer⟩ => answer = none
  | ⟨.now, _⟩ => False
  | ⟨.publishCommand _ _, _⟩ => False
  | ⟨.rpcRequest _ _ _, _⟩ => False

/-- The answer is the one that was known beforehand. -/
def SaidBy (deps : DepsAnswers) : Exchange Question Question.Answer → Prop
  | ⟨.identify, answer⟩ => answer = some deps.identity
  | ⟨.rateLimit _ _, answer⟩ => answer = some deps.verdict
  | ⟨.entitlements _, answer⟩ => answer = some deps.entitlements
  | ⟨.now, answer⟩ => answer = deps.issuedAt
  | ⟨.publishCommand _ _, _⟩ => True
  | ⟨.rpcRequest _ _ _, _⟩ => True

section Refinement

variable (crypto : Crypto) (secret : JSString) (reg : Registry) (contracts : ContractMap)
  (args : DispatchArgs)

/-- The questions before the bus, for a caller. -/
def asks : Option GatewayIdentity → List Question
  | none => [.identify]
  | some identity =>
    .identify :: match reg.resource? args.resource with
      | none => []
      | some definition =>
        [.rateLimit (limiterKey identity.orgId args.resource args.operation) definition.rateLimit,
          .entitlements identity.orgId, .now]

/-- How a call that was sent ends, by what the bus answered. -/
inductive BusAnswered (definition : ResourceDefinition) (rule : OperationRule) (e : Envelope) :
    Exchange Question Question.Answer → Except DispatchError Value → Prop
  | stored (h : rule.transport = .command) : BusAnswered definition rule e
      ⟨.publishCommand (commandSubject args.resource args.operation) e, true⟩
      (accept (contracts args.resource args.operation) e.requestMeta.requestId)
  | unstored (h : rule.transport = .command) : BusAnswered definition rule e
      ⟨.publishCommand (commandSubject args.resource args.operation) e, false⟩ (.error .threw)
  | answered (h : rule.transport = .rpc) (response : Response) : BusAnswered definition rule e
      ⟨.rpcRequest (rpcSubject args.resource args.operation) e rule.timeoutMs, response⟩
      (conclude crypto secret (contracts args.resource args.operation) definition.owner
        (rpcSubject args.resource args.operation) e response)

/-- A conversation that is what `prepare` makes of the answers given in it.  A
call is refused, or its envelope sent, only where nothing it asked threw. -/
inductive FollowsPrepare (deps : DepsAnswers) : Conversation → Except DispatchError Value → Prop
  /-- A dependency threw, and so did the call. -/
  | threw {transcript : Conversation} (h : ∃ exchange ∈ transcript, Threw exchange)
      (hasked : transcript.map (·.question) <+: asks reg args deps.identity) :
      FollowsPrepare deps transcript (.error .threw)
  /-- Everything answered, and a gate refused. -/
  | refused {transcript : Conversation} {error : DispatchError}
      (hkept : ∀ exchange ∈ transcript, ¬ Threw exchange)
      (h : prepare crypto secret reg contracts args deps = .error error)
      (hasked : transcript.map (·.question) <+: asks reg args deps.identity) :
      FollowsPrepare deps transcript (.error error)
  /-- Everything answered, and the envelope was sent. -/
  | sent {transcript : Conversation} {sent : Exchange Question Question.Answer} {e : Envelope}
      {definition : ResourceDefinition} {rule : OperationRule}
      {outcome : Except DispatchError Value}
      (hkept : ∀ exchange ∈ transcript, ¬ Threw exchange)
      (h : prepare crypto secret reg contracts args deps = .ok e)
      (hasked : transcript.map (·.question) = asks reg args deps.identity)
      (hdefinition : reg.resource? args.resource = some definition)
      (hrule : reg.ruleFor args.resource args.operation = some rule)
      (hanswered : BusAnswered crypto secret contracts args definition rule e sent outcome) :
      FollowsPrepare deps (transcript ++ [sent]) outcome

variable {crypto secret reg contracts args} {transcript : Conversation}
  {outcome : Except DispatchError Value} {definition : ResourceDefinition} {rule : OperationRule}
  {identity : GatewayIdentity} {verdict : RateVerdict} {e : Envelope}

/-- A dependency that said what had been written down for it beforehand did not throw. -/
theorem SaidBy.not_threw {deps : DepsAnswers} {exchange : Exchange Question Question.Answer}
    (h : SaidBy deps exchange) : ¬ Threw exchange := by
  intro hthrew
  obtain ⟨question, answer⟩ := exchange
  cases question with
  | identify => cases h.symm.trans hthrew
  | rateLimit => cases h.symm.trans hthrew
  | entitlements => cases h.symm.trans hthrew
  | now => exact hthrew
  | publishCommand => exact hthrew
  | rpcRequest => exact hthrew

/-- Nothing threw before a call whose caller was identified and let through by the
limiter reaches billing, so none did if none does from there on. -/
theorem kept_of_said {deps : DepsAnswers} {key : JSString} {limit : RateLimit}
    (hsaid : ∀ exchange ∈ transcript, SaidBy deps exchange) :
    ∀ exchange ∈ (⟨.identify, some (some identity)⟩ :: ⟨.rateLimit key limit, some verdict⟩ ::
      transcript : Conversation), ¬ Threw exchange := by
  intro exchange hmem
  rcases List.mem_cons.mp hmem with rfl | hmem
  · exact Option.some_ne_none _
  · rcases List.mem_cons.mp hmem with rfl | hmem
    · exact Option.some_ne_none _
    · exact (hsaid exchange hmem).not_threw

/-- From step 8 on one thing is asked, of the bus, and the call ends by what the bus
answers. -/
theorem busAnswered_of_send
    (h : Ends (send crypto secret contracts args definition rule e) transcript outcome) :
    ∃ sent, transcript = [sent] ∧
      BusAnswered crypto secret contracts args definition rule e sent outcome := by
  unfold send at h
  cases htransport : rule.transport with
  | command =>
      rw [htransport] at h
      obtain ⟨stored, rest, rfl, hrest⟩ := Dialogue.ends_ask_iff.mp h
      cases stored with
      | true =>
          obtain ⟨rfl, rfl⟩ := Dialogue.ends_done_iff.mp hrest
          exact ⟨_, rfl, .stored htransport⟩
      | false =>
          obtain ⟨rfl, rfl⟩ := Dialogue.ends_done_iff.mp hrest
          exact ⟨_, rfl, .unstored htransport⟩
  | rpc =>
      rw [htransport] at h
      obtain ⟨response, rest, rfl, hrest⟩ := Dialogue.ends_ask_iff.mp h
      obtain ⟨rfl, rfl⟩ := Dialogue.ends_done_iff.mp hrest
      exact ⟨_, rfl, .answered htransport response⟩

/-- What a caller whom the gates before the limiter let through has passed. -/
structure LetThrough (reg : Registry) (args : DispatchArgs) (definition : ResourceDefinition)
    (rule : OperationRule) (identity : GatewayIdentity) : Prop where
  declared : reg.resource? args.resource = some definition ∧
    reg.ruleFor args.resource args.operation = some rule
  orgId : ¬ identity.orgId.length = 0
  role : roleAtLeast identity.role rule.minRole = true
  permitted : can (reg.permissionsForRole identity.role) args.resource args.operation = true
  unescalated : refusedRole args.input identity.role = none

section Prepare

variable {deps : DepsAnswers} (h : LetThrough reg args definition rule identity)
  (hidentity : deps.identity = some identity)

include h hidentity

variable (hverdict : deps.verdict.ok = true)

include hverdict

/-- A call that the plan gate refuses, after all before it let it through, `prepare` refuses
in the same words. -/
theorem prepare_of_overPlan {failure : GatewayFailure}
    (hplan : planGate reg args.resource rule deps.entitlements = some failure) :
    prepare crypto secret reg contracts args deps = .error (.failed failure) := by
  simp only [prepare, h.declared.2, hidentity, h.orgId, h.role, h.permitted, h.unescalated, hverdict,
    hplan, not_true_eq_false, if_false]

variable (hplan : planGate reg args.resource rule deps.entitlements = none)

include hplan

/-- The preparation throws where the input does not pass the operation's contract. -/
theorem prepare_of_unparsed
    (hinput : (contracts args.resource args.operation).input args.input = none) :
    prepare crypto secret reg contracts args deps = .error .threw := by
  simp only [prepare, h.declared.2, hidentity, h.orgId, h.role, h.permitted, h.unescalated, hverdict,
    hplan, hinput, not_true_eq_false, if_false]

/-- And `prepare` throws, as the call does, where the parsed input cannot be signed. -/
theorem prepare_of_unsigned {payload : Value}
    (hinput : (contracts args.resource args.operation).input args.input = some payload)
    (hsign : signRequest crypto (metaFor reg args identity rule deps) payload secret = none) :
    prepare crypto secret reg contracts args deps = .error .threw := by
  simp only [prepare, h.declared.2, hidentity, h.orgId, h.role, h.permitted, h.unescalated, hverdict,
    hplan, hinput, hsign, not_true_eq_false, if_false]

end Prepare

/-- About a call that the gates before it let through the limiter is asked, under the
organisation's own key. -/
theorem limiterArgs_of_letThrough (h : LetThrough reg args definition rule identity) :
    limiterArgs reg args (some identity) =
      some (limiterKey identity.orgId args.resource args.operation, definition.rateLimit) := by
  simp only [limiterArgs, h.declared.1, h.declared.2, h.orgId, h.role, h.permitted, h.unescalated,
    not_true_eq_false, if_false, Option.isSome_none, Bool.false_eq_true]

/-- A call that is let through asks four questions, in this order. -/
theorem asks_of_letThrough (h : LetThrough reg args definition rule identity) :
    asks reg args (some identity) = [.identify,
      .rateLimit (limiterKey identity.orgId args.resource args.operation) definition.rateLimit,
      .entitlements identity.orgId, .now] := by
  unfold asks
  simp only [h.declared.1]

/-- Steps 6 and 7, asked one answer at a time, come to what `prepare` makes of all the
answers. -/
theorem followsPrepare_of_prepareAndSend (hthrough : LetThrough reg args definition rule identity)
    (hverdict : verdict.ok = true)
    (h : Ends (prepareAndSend crypto secret reg contracts args definition rule identity verdict)
      transcript outcome) :
    ∃ deps, deps.identity = some identity ∧ deps.verdict = verdict ∧
      (∀ exchange ∈ transcript, Threw exchange ∨ SaidBy deps exchange) ∧
      FollowsPrepare crypto secret reg contracts args deps
        (⟨.identify, some (some identity)⟩ ::
          ⟨.rateLimit (limiterKey identity.orgId args.resource args.operation) definition.rateLimit,
            some verdict⟩ :: transcript) outcome := by
  have hasks := asks_of_letThrough hthrough
  obtain ⟨answer, rest, rfl, hrest⟩ := Dialogue.ends_ask_iff.mp h
  cases answer with
  | none =>
      obtain ⟨rfl, rfl⟩ := Dialogue.ends_done_iff.mp hrest
      refine ⟨⟨some identity, verdict, reg.emptyEntitlements, 0⟩, rfl, rfl, ?_, .threw ?_ ?_⟩
      · intro exchange hmem
        rw [List.mem_singleton.mp hmem]
        exact .inl rfl
      · exact ⟨⟨.entitlements identity.orgId, none⟩, by simp, rfl⟩
      · rw [hasks]
        exact List.prefix_append _ [Question.now]
  | some entitlements =>
      dsimp only at hrest
      split at hrest
      · -- refused by the plan gate
        rename_i failure hplan
        obtain ⟨rfl, rfl⟩ := Dialogue.ends_done_iff.mp hrest
        let deps : DepsAnswers := ⟨some identity, verdict, entitlements, 0⟩
        have hsaid : ∀ exchange ∈ [(⟨.entitlements identity.orgId, some entitlements⟩ :
            Exchange Question Question.Answer)], SaidBy deps exchange := by
          intro exchange hmem
          rw [List.mem_singleton.mp hmem]
          rfl
        refine ⟨deps, rfl, rfl, fun exchange hmem => .inr (hsaid exchange hmem),
          .refused (kept_of_said hsaid) ?_ ?_⟩
        · exact prepare_of_overPlan hthrough rfl hverdict hplan
        · rw [hasks]
          exact List.prefix_append _ [Question.now]
      · rename_i hplan
        obtain ⟨issuedAt, last, rfl, hlast⟩ := Dialogue.ends_ask_iff.mp hrest
        let deps : DepsAnswers := ⟨some identity, verdict, entitlements, issuedAt⟩
        have hsaid : ∀ exchange ∈ [(⟨.entitlements identity.orgId, some entitlements⟩ :
            Exchange Question Question.Answer), ⟨.now, issuedAt⟩], SaidBy deps exchange := by
          intro exchange hmem
          rcases List.mem_cons.mp hmem with rfl | hmem
          · rfl
          · rw [List.mem_singleton.mp hmem]
            rfl
        split at hlast
        · rename_i hinput
          obtain ⟨rfl, rfl⟩ := Dialogue.ends_done_iff.mp hlast
          refine ⟨deps, rfl, rfl, fun exchange hmem => .inr (hsaid exchange hmem),
            .refused (kept_of_said hsaid) ?_ ?_⟩
          · exact prepare_of_unparsed hthrough rfl hverdict hplan hinput
          · rw [hasks]
            exact List.prefix_refl _
        · rename_i payload hinput
          split at hlast
          · rename_i hsign
            obtain ⟨rfl, rfl⟩ := Dialogue.ends_done_iff.mp hlast
            refine ⟨deps, rfl, rfl, fun exchange hmem => .inr (hsaid exchange hmem),
              .refused (kept_of_said hsaid) ?_ ?_⟩
            · exact prepare_of_unsigned hthrough rfl hverdict hplan hinput hsign
            · rw [hasks]
              exact List.prefix_refl _
          · rename_i signature hsign
            obtain ⟨sent, rfl, hanswered⟩ := busAnswered_of_send hlast
            have hprepare := @prepare_of_passes crypto secret reg contracts args deps identity rule
              payload signature hthrough.declared.2 rfl (Nat.one_le_iff_ne_zero.mpr hthrough.orgId)
              hthrough.role hthrough.unescalated hverdict hplan hinput hsign
            refine ⟨deps, rfl, rfl, ?_, ?_⟩
            · intro exchange hmem
              rcases List.mem_append.mp (show exchange ∈ [_, _] ++ [sent] from hmem) with
                hbefore | hlast
              · exact .inr (hsaid exchange hbefore)
              · rw [List.mem_singleton.mp hlast]
                cases hanswered <;> exact .inr trivial
            · exact @FollowsPrepare.sent crypto secret reg contracts args deps [_, _, _, _] _ _ _ _ _
                (kept_of_said hsaid) hprepare hasks.symm hthrough.declared.1 hthrough.declared.2 hanswered

/-- A caller is asked about at the limiter as the list of questions says. -/
theorem FollowsPrepare.mem_asks {deps : DepsAnswers} {key : JSString} {limit : RateLimit}
    (h : FollowsPrepare crypto secret reg contracts args deps transcript outcome)
    (hmem : .rateLimit key limit ∈ transcript.map (·.question)) :
    .rateLimit key limit ∈ asks reg args deps.identity := by
  cases h with
  | threw _ hasked => exact hasked.subset hmem
  | refused _ _ hasked => exact hasked.subset hmem
  | sent _ _ hasked _ _ hanswered =>
      rw [List.map_append] at hmem
      rcases List.mem_append.mp hmem with hbefore | hlast
      · exact hasked ▸ hbefore
      · cases hanswered <;> cases List.mem_singleton.mp hlast

/-- The conversation follows from the answers: what was said in it, what came of
it, and whether the limiter was asked. -/
structure Follows (crypto : Crypto) (secret : JSString) (reg : Registry) (contracts : ContractMap)
    (args : DispatchArgs) (deps : DepsAnswers) (transcript : Conversation)
    (outcome : Except DispatchError Value) : Prop where
  said : ∀ exchange ∈ transcript, Threw exchange ∨ SaidBy deps exchange
  decided : FollowsPrepare crypto secret reg contracts args deps transcript outcome
  limited : ∀ key limit, .rateLimit key limit ∈ transcript.map (·.question) ↔
    limiterArgs reg args deps.identity = some (key, limit)

/-- Whatever the call is, the first question it asks of a dependency is who is calling. -/
theorem identify_leads (reg : Registry) (args : DispatchArgs) (identity : Option GatewayIdentity) :
    [Question.identify] <+: asks reg args identity := by
  unfold asks
  cases identity with
  | none => exact List.prefix_refl _
  | some identity => exact List.prefix_append [Question.identify] _

/-- A call that is refused by what `identify` answered asks nothing else, and `prepare`
refuses it alike. -/
theorem follows_of_identity {deps : DepsAnswers} {error : DispatchError}
    (hprepare : prepare crypto secret reg contracts args deps = .error error)
    (hnot : limiterArgs reg args deps.identity = none) :
    Follows crypto secret reg contracts args deps [⟨.identify, some deps.identity⟩]
      (.error error) where
  said exchange hmem := by
    rw [List.mem_singleton.mp hmem]
    exact .inr rfl
  decided := by
    refine .refused ?_ hprepare (identify_leads reg args _)
    intro exchange hmem
    rw [List.mem_singleton.mp hmem]
    exact Option.some_ne_none _
  limited key limit := by
    rw [hnot]
    simp

/-- A call that the limiter was asked about follows `prepare` where the rest of its
conversation does. -/
theorem follows_of_limited (hthrough : LetThrough reg args definition rule identity)
    {answer : Option RateVerdict} {deps : DepsAnswers} (hidentity : deps.identity = some identity)
    (hanswer : answer = none ∨ answer = some deps.verdict)
    (hrest : ∀ exchange ∈ transcript, Threw exchange ∨ SaidBy deps exchange)
    (hfollows : FollowsPrepare crypto secret reg contracts args deps
      (⟨.identify, some (some identity)⟩ ::
        ⟨.rateLimit (limiterKey identity.orgId args.resource args.operation) definition.rateLimit,
          answer⟩ :: transcript) outcome) :
    Follows crypto secret reg contracts args deps
      (⟨.identify, some (some identity)⟩ ::
        ⟨.rateLimit (limiterKey identity.orgId args.resource args.operation) definition.rateLimit,
          answer⟩ :: transcript) outcome where
  said exchange hmem := by
    rcases List.mem_cons.mp hmem with rfl | hmem
    · exact .inr (congrArg some hidentity.symm)
    · rcases List.mem_cons.mp hmem with rfl | hmem
      · exact hanswer
      · exact hrest exchange hmem
  decided := hfollows
  limited key limit := by
    rw [hidentity, limiterArgs_of_letThrough hthrough]
    constructor
    · intro hmem
      have hasked := hfollows.mem_asks hmem
      rw [hidentity, asks_of_letThrough hthrough] at hasked
      simp only [List.mem_cons, reduceCtorEq, Question.rateLimit.injEq, List.not_mem_nil, or_false,
        false_or] at hasked
      rw [hasked.1, hasked.2]
    · intro hsame
      obtain ⟨rfl, rfl⟩ := Prod.mk.inj (Option.some.inj hsame)
      exact List.mem_cons_of_mem _ List.mem_cons_self

end Refinement

/-- **Dispatch asks in order.**  Whoever answers and whatever they answer, a call
asks an initial part of one list of questions, each once, about the caller's own
organisation, and the limiter exactly where `limiterArgs` says.  If a dependency
threw, so did the call; otherwise it ends as `prepare` decides of the answers
given: refused and nothing sent, or sent, as the last thing it did, with the
envelope `prepare` signs. -/
theorem dispatch_refines (crypto : Crypto) (secret : JSString) (reg : Registry)
    (contracts : ContractMap) (args : DispatchArgs) (transcript : Conversation)
    (outcome : Except DispatchError Value)
    (h : Ends (dispatch crypto secret reg contracts args) transcript outcome) :
    ∃ deps, Follows crypto secret reg contracts args deps transcript outcome := by
  let known : Option GatewayIdentity → DepsAnswers :=
    fun identity => ⟨identity, ⟨true, 0⟩, reg.emptyEntitlements, 0⟩
  unfold dispatch at h
  split at h
  · rename_i definition rule hdefinition hrule
    obtain ⟨answer, rest, rfl, hrest⟩ := Dialogue.ends_ask_iff.mp h
    split at hrest
    · -- `identify` threw
      obtain ⟨rfl, rfl⟩ := Dialogue.ends_done_iff.mp hrest
      refine ⟨known none, ?_, .threw ⟨_, List.mem_cons_self, rfl⟩ (List.prefix_refl _), ?_⟩
      · intro exchange hmem
        rw [List.mem_singleton.mp hmem]
        exact .inl rfl
      · intro key limit
        simp [known, limiterArgs]
    · obtain ⟨rfl, rfl⟩ := Dialogue.ends_done_iff.mp hrest
      refine ⟨known none, follows_of_identity ?_ rfl⟩
      simp only [prepare, hrule, known]
    · rename_i identity
      have hearly : ∀ error, prepare crypto secret reg contracts args (known (some identity)) =
            .error error → limiterArgs reg args (some identity) = none →
          Ends (.done (.error error) : Dispatching) rest outcome →
          ∃ deps, Follows crypto secret reg contracts args deps
            (⟨.identify, some (some identity)⟩ :: rest) outcome := by
        intro error hprepare hnot hends
        obtain ⟨rfl, rfl⟩ := Dialogue.ends_done_iff.mp hends
        exact ⟨known (some identity), follows_of_identity hprepare hnot⟩
      split at hrest
      · rename_i horg
        exact hearly _ (by simp [prepare, hrule, known, horg])
          (by simp [limiterArgs, hdefinition, hrule, horg]) hrest
      · rename_i horg
        split at hrest
        · rename_i hrole
          exact hearly _ (by simp [prepare, hrule, known, horg, hrole])
            (by simp [limiterArgs, hdefinition, hrule, horg, hrole]) hrest
        · rename_i hrole
          split at hrest
          · rename_i hcan
            exact hearly _ (by simp [prepare, hrule, known, horg, hrole, hcan])
              (by simp [limiterArgs, hdefinition, hrule, horg, hrole, hcan]) hrest
          · rename_i hcan
            split at hrest
            · rename_i refused hrefused
              exact hearly _ (by simp [prepare, hrule, known, horg, hrole, hcan, hrefused])
                (by simp [limiterArgs, hdefinition, hrule, horg, hrole, hcan, hrefused]) hrest
            · rename_i hrefused
              have hthrough : LetThrough reg args definition rule identity :=
                ⟨⟨hdefinition, hrule⟩, horg, not_not.mp hrole, not_not.mp hcan, hrefused⟩
              have hasks := asks_of_letThrough hthrough
              obtain ⟨answer, later, rfl, hlater⟩ := Dialogue.ends_ask_iff.mp hrest
              cases answer with
              | none =>
                  -- the limiter threw
                  obtain ⟨rfl, rfl⟩ := Dialogue.ends_done_iff.mp hlater
                  refine ⟨known (some identity), follows_of_limited hthrough rfl (.inl rfl) ?_ ?_⟩
                  · intro exchange hmem
                    cases hmem
                  · refine .threw ⟨_, List.mem_cons_of_mem _ List.mem_cons_self, rfl⟩ ?_
                    rw [hasks]
                    exact List.prefix_append _ [Question.entitlements identity.orgId, Question.now]
              | some verdict =>
                  dsimp only at hlater
                  by_cases hverdict : verdict.ok = true
                  · rw [if_neg (not_not.mpr hverdict)] at hlater
                    obtain ⟨deps, hidentity, rfl, hsaid, hfollows⟩ :=
                      followsPrepare_of_prepareAndSend hthrough hverdict hlater
                    exact ⟨deps, follows_of_limited hthrough hidentity (.inr rfl) hsaid hfollows⟩
                  · rw [if_pos hverdict] at hlater
                    obtain ⟨rfl, rfl⟩ := Dialogue.ends_done_iff.mp hlater
                    refine ⟨⟨some identity, verdict, reg.emptyEntitlements, 0⟩,
                      follows_of_limited hthrough rfl (.inr rfl) ?_
                        (.refused (@kept_of_said [] identity verdict (known none) _ _ ?_) ?_ ?_)⟩
                    · intro exchange hmem
                      cases hmem
                    · intro exchange hmem
                      cases hmem
                    · exact prepare_of_limited (limiterArgs_of_letThrough hthrough)
                        (Bool.eq_false_of_not_eq_true hverdict)
                    · rw [hasks]
                      exact List.prefix_append _ [Question.entitlements identity.orgId, Question.now]
  · -- the registry declares no such operation
    rename_i hnone
    obtain ⟨rfl, rfl⟩ := Dialogue.ends_done_iff.mp h
    have hrule : reg.ruleFor args.resource args.operation = none := by
      cases hrule : reg.ruleFor args.resource args.operation with
      | none => rfl
      | some rule =>
          obtain ⟨definition, hdefinition, -⟩ := Option.bind_eq_some_iff.mp hrule
          exact (hnone definition rule hdefinition hrule).elim
    refine ⟨known none, ?_, .refused ?_ ?_ List.nil_prefix, ?_⟩
    · intro exchange hmem
      cases hmem
    · intro exchange hmem
      cases hmem
    · simp only [prepare, hrule]
    · intro key limit
      simp [known, limiterArgs]

/-! ## A call that gets through -/

section Sent

variable {crypto : Crypto} {secret : JSString} {reg : Registry} {contracts : ContractMap}
  {args : DispatchArgs} {definition : ResourceDefinition} {rule : OperationRule}
  {identity : GatewayIdentity} {deps : DepsAnswers} {payload : Value} {signature : JSString}
  {sent : Exchange Question Question.Answer} {outcome : Except DispatchError Value}

/-- What is answered to a call that gets through. -/
def throughBus (args : DispatchArgs) (definition : ResourceDefinition) (identity : GatewayIdentity)
    (deps : DepsAnswers) (sent : Exchange Question Question.Answer) : Conversation :=
  [⟨.identify, some (some identity)⟩,
    ⟨.rateLimit (limiterKey identity.orgId args.resource args.operation) definition.rateLimit,
      some deps.verdict⟩,
    ⟨.entitlements identity.orgId, some deps.entitlements⟩, ⟨.now, deps.issuedAt⟩, sent]

/-- A call that every gate lets through is sent, whatever the bus answers. -/
theorem ends_of_busAnswered (hthrough : LetThrough reg args definition rule identity)
    (hverdict : deps.verdict.ok = true)
    (hplan : planGate reg args.resource rule deps.entitlements = none)
    (hinput : (contracts args.resource args.operation).input args.input = some payload)
    (hsign : signRequest crypto (metaFor reg args identity rule deps) payload secret =
      some signature)
    (hanswered : BusAnswered crypto secret contracts args definition rule
      { requestMeta := metaFor reg args identity rule deps, payload, signature } sent outcome) :
    Ends (dispatch crypto secret reg contracts args)
      (throughBus args definition identity deps sent) outcome := by
  have hsend : Ends (send crypto secret contracts args definition rule
      { requestMeta := metaFor reg args identity rule deps, payload, signature }) [sent] outcome := by
    unfold send
    cases hanswered with
    | stored htransport =>
        rw [htransport]
        exact .ask (.done _)
    | unstored htransport =>
        rw [htransport]
        exact .ask (.done _)
    | answered htransport response =>
        rw [htransport]
        exact .ask (.done _)
  have hprepared : Ends (prepareAndSend crypto secret reg contracts args definition rule identity
      deps.verdict) [⟨.entitlements identity.orgId, some deps.entitlements⟩, ⟨.now, deps.issuedAt⟩,
        sent] outcome := by
    unfold prepareAndSend
    refine .ask ?_
    dsimp only
    rw [hplan]
    refine .ask ?_
    have hmeta : metaFor reg args identity rule ⟨some identity, deps.verdict, deps.entitlements,
        deps.issuedAt⟩ = metaFor reg args identity rule deps := rfl
    rw [hinput, hmeta]
    dsimp only
    rw [hsign]
    exact hsend
  unfold dispatch
  rw [hthrough.declared.1, hthrough.declared.2]
  refine .ask ?_
  dsimp only
  rw [if_neg hthrough.orgId, if_neg (not_not.mpr hthrough.role),
    if_neg (not_not.mpr hthrough.permitted), hthrough.unescalated]
  refine .ask ?_
  dsimp only
  rw [if_neg (not_not.mpr hverdict)]
  exact hprepared

end Sent

/-- A removal that no service answers asks five questions, the last of them of the bus, and
follows `prepare`. -/
theorem unanswered_removal_follows : ∃ (transcript : Conversation)
    (outcome : Except DispatchError Value), transcript.length = 5 ∧
    Ends (dispatch .transparent (str "secret") registry (contractFor roughFormats) (removeCall []))
      transcript outcome ∧
    ∃ deps, Follows .transparent (str "secret") registry (contractFor roughFormats) (removeCall [])
      deps transcript outcome := by
  obtain ⟨signature, hsign⟩ := @Statement.sign_isSome .transparent
    (.envelope .request removeMeta (removeBody []).toValue) _ (canonicalJson_toValue _) (str "secret")
  have hthrough : LetThrough registry (removeCall []) projectResource (mutationRule .admin false 5000)
      remover := ⟨⟨rfl, rfl⟩, by decide, rfl, by decide, rfl⟩
  have hends := @ends_of_busAnswered .transparent (str "secret") registry (contractFor roughFormats)
    (removeCall []) projectResource (mutationRule .admin false 5000) remover removeAnswers
    (removeBody []).toValue signature _ _ hthrough rfl rfl rfl hsign (.answered rfl .failed)
  exact ⟨_, _, rfl, hends, dispatch_refines _ _ _ _ _ _ _ hends⟩

end Guardrail
