import GuardrailPlatform.RequestAuthenticity

/-!
# What a reply says about its call

A reply is bound to the request id, the resource and the operation of its call,
and to its outcome, but not to the payload.  Where those three name one
envelope, the owning service built the reply while handling it.  Two things
undo that: calls of one batch share their request id, and a service signs
refusals under a meta it has not verified or does not own.
-/

namespace Guardrail

open Js

variable {Effect : Type*}

namespace Platform

/-- What `rpcRequest` makes of the answer to an envelope. -/
def receive (P : Platform Effect) (e : Envelope) (raw : Json) : Except ServiceError ReplyEnvelope :=
  rpcRequest P.crypto P.secret (rpcSubject e.requestMeta.resource e.requestMeta.operation) e raw

/-- The response of a dispatched rpc, as its caller gets it. -/
def conclude (P : Platform Effect) (owner : ServiceName) (e : Envelope) (response : Response) :
    Except DispatchError Value :=
  Guardrail.conclude P.crypto P.secret (P.contracts e.requestMeta.resource e.requestMeta.operation)
    owner (rpcSubject e.requestMeta.resource e.requestMeta.operation) e response

/-- The envelope of a call that waits for its reply. -/
def Awaited (P : Platform Effect) (e : Envelope) : Prop :=
  ∃ rule, P.reg.ruleFor e.requestMeta.resource e.requestMeta.operation = some rule ∧
    rule.transport = .rpc

/-- The owning service received the very envelope. -/
structure Handled (P : Platform Effect) (d : Delivery) (e : Envelope) : Prop where
  received : ∃ e', parseEnvelope P.reg d.raw = some e' ∧ e'.signature = e.signature ∧
    e'.requestMeta.Agrees e.requestMeta ∧ SameProjection e'.payload e.payload
  owned : P.reg.ownerOf e.requestMeta.resource = some d.service

/-- What stands behind the answer of a call: for its data, a handler that
returned it; for a refusal, the service that built it.  Both handled this envelope. -/
structure ReplyAgreement (P : Platform Effect) (history : List BusEvent) (owner : ServiceName)
    (e : Envelope) (response : Response) : Prop where
  data : ∀ output, P.conclude owner e response = .ok output → ∃ d data published received,
    .settled d (.returned data) published ∈ history ∧ P.Handled d e ∧
    SameProjection received data ∧
    (P.contracts e.requestMeta.resource e.requestMeta.operation).output received = some output
  refusal : ∀ raw requestId signature error, response = .message raw →
    P.receive e raw = .ok (.refused requestId signature error) →
    P.conclude owner e response = .error (.failed (toFailure error)) ∧
    ∃ event ∈ history, ∃ d route requestId' signature' built,
      P.Replies event d route (.refused requestId' signature' built) ∧ P.Handled d e ∧
      SameProjection error.toValue built.toValue

/-! ## Keeping reply routes apart -/

/-- Whatever is delivered under a call's reply route verifies, and its service owns it. -/
def Answerable (P : Platform Effect) (d : Delivery) (e : Envelope) : Prop :=
  P.Awaited e → ∀ e', parseEnvelope P.reg d.raw = some e' →
    e'.requestMeta.replyRoute = e.requestMeta.replyRoute →
    verifyRequest P.crypto e'.requestMeta e'.payload e'.signature P.secret = true ∧
      P.reg.ownerOf e.requestMeta.resource = some d.service

/-- Two events that leave every reply route to one envelope. -/
def Apart (P : Platform Effect) : BusEvent → BusEvent → Prop
  | .signed _ e, .signed _ e' => P.Awaited e → P.Awaited e' →
    e.requestMeta.replyRoute = e'.requestMeta.replyRoute → e.signature = e'.signature
  | .signed _ e, .delivered d => P.Answerable d e
  | .delivered d, .signed _ e => P.Answerable d e
  | _, _ => True

/-- A run each of whose steps stays apart from what preceded it. -/
def SeparatedRun (P : Platform Effect) (history : List BusEvent) : Prop :=
  Trace.Run (fun earlier event => P.Allowed earlier event ∧ ∀ event' ∈ earlier, P.Apart event event')
    history

variable {P : Platform Effect}

/-- Two events of a run that are apart are apart in either order. -/
theorem Apart.symm {event event' : BusEvent} (h : P.Apart event event') :
    P.Apart event' event := by
  cases event with
  | signed call e =>
      cases event' with
      | signed call' e' => exact fun hawaited hawaited' hroute =>
          (h hawaited' hawaited hroute.symm).symm
      | delivered d => exact h
      | _ => trivial
  | delivered d =>
      cases event' with
      | signed call e => exact h
      | _ => trivial
  | _ => cases event' <;> trivial

/-- An event is apart from itself: only two calls can be confused. -/
theorem Apart.refl (event : BusEvent) : P.Apart event event := by
  cases event with
  | signed call e => exact fun _ _ _ => rfl
  | _ => trivial

theorem SeparatedRun.run {history : List BusEvent} (h : P.SeparatedRun history) : P.Run history :=
  h.mono fun _ _ => And.left

/-- In a separated run any two events, whichever came first, are apart. -/
theorem SeparatedRun.apart {history : List BusEvent} (h : P.SeparatedRun history) :
    ∀ event ∈ history, ∀ event' ∈ history, P.Apart event event' := by
  have : Std.Symm P.Apart := ⟨fun _ _ => Apart.symm⟩
  have hpairwise := h.pairwise fun _ _ hallowed => hallowed.2
  exact fun _ hevent _ hevent' =>
    hpairwise.forall_of_forall (fun event _ => Apart.refl event) hevent hevent'

/-! ## Who built a reply -/

theorem operation_ne_unknown (operation : Operation) : operation.name ≠ unrouted.operation := by
  cases operation <;> decide

/-- A reply that names an operation answers a message that was delivered, and
is bound to the meta of that message. -/
theorem delivered_of_replies {history : List BusEvent} (hrun : P.Run history) {event : BusEvent}
    (hevent : event ∈ history) {d : Delivery} {route : ReplyRoute} {built : ReplyEnvelope}
    (hreplies : P.Replies event d route built) (hrouted : route.operation ≠ unrouted.operation) :
    .delivered d ∈ history ∧ ∃ e, parseEnvelope P.reg d.raw = some e ∧
      route = e.requestMeta.replyRoute := by
  cases hreplies with
  | @gate d route error built hscreen hreply =>
      refine ⟨hevent, ?_⟩
      cases hparse : parseEnvelope P.reg d.raw with
      | none =>
          have hrefused : Admission.refused unrouted
              (wireError .untrustedEnvelope (str "Malformed envelope.")) = P.screen d := by
            unfold Platform.screen Guardrail.screen
            rw [hparse]
          obtain ⟨rfl, -⟩ := Admission.refused.inj (hrefused.trans hscreen)
          exact absurd rfl hrouted
      | some e => exact ⟨e, rfl, (refused_of_screen hparse hscreen).1⟩
  | @handler d b m payload execution published built hscreen hreply =>
      obtain ⟨r, hpassed⟩ := passed_of_screen hscreen
      obtain ⟨signature, hparse, -⟩ := hpassed.signed
      obtain ⟨earlier, hsuffix, -, hallowed⟩ := hrun.allowed_of_mem hevent
      exact ⟨hsuffix.subset (List.mem_cons_of_mem _ hallowed.1), _, hparse, rfl⟩

/-- A reply of success answers with the data that the handler returned. -/
theorem returned_of_replies {event : BusEvent} {d : Delivery} {route : ReplyRoute}
    {built : ReplyEnvelope} (hreplies : P.Replies event d route built) (hok : built.isOk = true) :
    ∃ data published, event = .settled d (.returned data) published ∧ built.answered = data := by
  cases hreplies with
  | gate hscreen hreply =>
      obtain ⟨signature, rfl, -⟩ := reject_eq_some.mp hreply
      cases hok
  | @handler d b m payload execution published built hscreen hreply =>
      obtain ⟨data, rfl, hanswered⟩ := returned_of_settle hreply hok
      exact ⟨data, published, rfl, hanswered⟩

/-- Whether a reply is awaited is a matter of the reply route alone. -/
theorem Awaited.of_replyRoute {e e' : Envelope} (h : P.Awaited e)
    (hroute : e'.requestMeta.replyRoute = e.requestMeta.replyRoute) : P.Awaited e' := by
  obtain ⟨-, hresource, hoperation⟩ := ReplyRoute.mk.inj hroute
  have hoperation := Operation.name_injective hoperation
  rwa [Awaited, hresource, hoperation]

/-- **One call.**  The reply a call accepts was built by the owning service,
while it handled the envelope of the call. -/
theorem handled_of_receive {history : List BusEvent} (hrun : P.SeparatedRun history) {call : ℕ}
    {e : Envelope} {raw : Json} {reply : ReplyEnvelope} (hsigned : .signed call e ∈ history)
    (hawaited : P.Awaited e) (hunforged : P.Unforged history raw)
    (hreply : P.receive e raw = .ok reply) :
    ∃ event ∈ history, ∃ d route built, P.Replies event d route built ∧ P.Handled d e ∧
      built.isOk = reply.isOk ∧ SameProjection reply.answered built.answered := by
  obtain ⟨hparse, -, hverify⟩ := rpcRequest_ok.mp hreply
  obtain ⟨s, hsaid, -, hagrees⟩ := said_of_sign hunforged (signature_of_parseReply hparse)
    (verifyReply_iff.mp hverify)
  cases s with
  | envelope => cases hagrees
  | reply binding data =>
      obtain ⟨rfl, hdata⟩ := hagrees
      obtain ⟨event, hevent, d, route, built, hreplies, hstatement⟩ :=
        replies_of_said hsaid (operation_ne_unknown _)
      obtain ⟨hbinding, rfl⟩ := Statement.reply.inj hstatement
      have hok : built.isOk = reply.isOk := congrArg ReplyBinding.ok hbinding
      have hroute : route = e.requestMeta.replyRoute := by
        obtain ⟨requestId, resource, operation⟩ := route
        obtain ⟨rfl, rfl, rfl, -⟩ := ReplyBinding.mk.inj hbinding
        rfl
      have hrouted : route.operation ≠ unrouted.operation := by
        rw [hroute]
        exact operation_ne_unknown _
      obtain ⟨hdelivered, e', hparsed, hsame⟩ :=
        delivered_of_replies hrun.run hevent hreplies hrouted
      have hanswerable : P.Answerable d e := hrun.apart _ hsigned _ hdelivered
      obtain ⟨hverified, howned⟩ := hanswerable hawaited e' hparsed (hsame.symm.trans hroute)
      -- the envelope that was handled was itself signed, under the route of the call
      obtain ⟨earlier, hsuffix, hearlier, hallowed⟩ := hrun.run.allowed_of_mem hdelivered
      obtain ⟨call', e'', hsigned', hsignature, hm, -⟩ :=
        signed_of_verified hearlier hallowed.1 hparsed hverified
      have hroute' : e''.requestMeta.replyRoute = e.requestMeta.replyRoute := by
        rw [← hroute, hsame, hm.1]
        rfl
      have hapart : P.Apart (.signed call' e'') (.signed call e) :=
        hrun.apart _ (hsuffix.subset (List.mem_cons_of_mem _ hsigned')) _ hsigned
      have hone : e'.signature = e.signature := 
        hsignature.symm.trans (hapart (hawaited.of_replyRoute hroute') hawaited hroute')
      have hmac := sign_of_signs (signs_of_mem hrun.run hsigned)
      have hmac' := verifyRequest_iff.mp hverified
      rw [hone] at hmac'
      obtain ⟨-, hmeta, hpayload⟩ := Statement.agrees_of_sign hmac' hmac
      exact ⟨event, hevent, d, route, built, hreplies, ⟨⟨e', hparsed, hone, hmeta, hpayload⟩, howned⟩,
        hok, hdata⟩

/-! ## Over a whole run -/

/-- A verified answer becomes the call's result, if its output contract takes
it. -/
theorem conclude_of_receive {owner : ServiceName} {e : Envelope} {raw : Json}
    {requestId signature : JSString} {data output : Value}
    (h : P.receive e raw = .ok (.ok requestId signature data))
    (houtput : (P.contracts e.requestMeta.resource e.requestMeta.operation).output data =
      some output) : P.conclude owner e (.message raw) = .ok output := by
  have hproved := proveAnswer_of_rpcRequest h
  unfold receive at h
  simp only [Platform.conclude, Guardrail.conclude, h, hproved, houtput]

theorem receive_of_conclude {owner : ServiceName} {e : Envelope} {response : Response} {output : Value}
    (h : P.conclude owner e response = .ok output) : ∃ raw requestId signature data,
      response = .message raw ∧ P.receive e raw = .ok (.ok requestId signature data) ∧
      (P.contracts e.requestMeta.resource e.requestMeta.operation).output data = some output := by
  unfold Platform.conclude Guardrail.conclude at h
  split at h
  · cases h
  · rename_i raw
    split at h
    · cases h
    · rename_i reply hreply
      split at h
      · cases h
      · split at h
        · cases h
        · rename_i requestId signature data _
          split at h
          · rename_i output' houtput
            obtain rfl := Except.ok.inj h
            exact ⟨raw, requestId, signature, data, rfl, hreply, houtput⟩
          · cases h

theorem conclude_refused {owner : ServiceName} {e : Envelope} {raw : Json}
    {requestId signature : JSString} {error : WireError}
    (h : P.receive e raw = .ok (.refused requestId signature error)) :
    P.conclude owner e (.message raw) = .error (.failed (toFailure error)) := by
  have hproved := proveAnswer_of_rpcRequest h
  unfold receive at h
  simp only [Platform.conclude, Guardrail.conclude, h, hproved]

/-- **Reply agreement.**  Where every step keeps reply routes apart, an
accepted reply is the outcome of the call's own envelope. -/
theorem reply_agreement (P : Platform Effect) (history : List BusEvent)
    (hrun : P.SeparatedRun history) (later : List BusEvent) (call : ℕ) (response : Response)
    (earlier : List BusEvent) (hanswered : history = later ++ .answered call response :: earlier)
    (owner : ServiceName) (e : Envelope) (hsigned : .signed call e ∈ earlier)
    (hawaited : P.Awaited e) : P.ReplyAgreement earlier owner e response := by
  subst hanswered
  obtain ⟨hearlier, ⟨-, -, hunforged⟩, -⟩ := hrun.allowed
  have hseparated : P.SeparatedRun earlier := hearlier
  constructor
  · intro output houtput
    obtain ⟨raw, requestId, signature, received, rfl, hreceive, houtput⟩ := receive_of_conclude houtput
    obtain ⟨event, hevent, d, route, built, hreplies, hhandled, hok, hdata⟩ :=
      handled_of_receive hseparated hsigned hawaited (hunforged raw rfl) hreceive
    obtain ⟨data, published, rfl, rfl⟩ := returned_of_replies hreplies hok
    exact ⟨d, _, published, received, hevent, hhandled, hdata, houtput⟩
  · rintro raw requestId signature error rfl hreceive
    refine ⟨conclude_refused hreceive, ?_⟩
    obtain ⟨event, hevent, d, route, built, hreplies, hhandled, hok, hdata⟩ :=
      handled_of_receive hseparated hsigned hawaited (hunforged raw rfl) hreceive
    cases built with
    | ok => cases hok
    | refused requestId' signature' built =>
        exact ⟨event, hevent, d, route, requestId', signature', built, hreplies, hhandled, hdata⟩

end Platform

/-! ## Two removals in one batch -/

theorem removeBody_ne :
    ¬ SameProjection (removeBody (str "p1")).toValue (removeBody (str "p2")).toValue := by
  intro h
  obtain ⟨x, y, hx, hy, hsame⟩ := h
  obtain rfl := Serialized.json.inj hx
  obtain rfl := Serialized.json.inj hy
  cases hsame with
  | object hmembers hperm =>
      cases hmembers with
      | cons _ hvalue hrest =>
          cases hvalue
          cases hrest
          have hmember := List.mem_singleton.mp (hperm.subset List.mem_cons_self)
          exact absurd (Json.string.inj (Prod.mk.inj hmember).2) (by decide)

/-- The reply to a removal is accepted by every call that shares its meta. -/
theorem remove_answered {history : List BusEvent} {d : Delivery} {b : Binding Unit} {payload : Value}
    (hscreen : shippedPlatform.screen d = .admitted b removeMeta payload)
    (hsettled : .settled d (.returned (removeBody (str "p1")).toValue) true ∈ history) :
    ∃ raw requestId signature, shippedPlatform.Unforged history raw ∧
      ∀ e, e.requestMeta = removeMeta → shippedPlatform.receive e raw =
        .ok (.ok requestId signature (removeBody (str "p1")).toValue) := by
  let body := (removeBody (str "p1")).toValue
  obtain ⟨signature, event, -, hsettle, -⟩ := remove_settles hscreen (removeBody (str "p1"))
  have hreply : (shippedPlatform.settle b removeMeta (.returned body) true).reply =
      some (.ok removeMeta.requestId signature body) := congrArg Settled.reply hsettle
  have hanswers : Answers .transparent (str "secret") removeMeta.replyRoute
      (.ok removeMeta.requestId signature body) := answers_of_settle hreply
  have hid : 1 ≤ removeMeta.requestId.length := by decide
  obtain ⟨raw, received, hreceived⟩ := @reply_accepted .transparent (str "secret")
    ⟨removeMeta, body, signature⟩ _ (rpcSubject removeMeta.resource .delete) hid hanswers
  obtain ⟨p, hp, hanswered⟩ := hreceived.answered
  obtain rfl := Serialized.json.inj ((rfl : project body = .json (removeBody (str "p1"))).symm.trans hp)
  cases received with
  | refused => cases hreceived.isOk
  | ok requestId signature' data =>
      obtain rfl : data = body := hanswered
      have hok := rpcRequest_ok.mp hreceived.accepted
      have hmember := Platform.signature_of_parseReply hok.1
      rw [hreceived.signature] at hmember
      refine ⟨raw, requestId, signature', ?_, ?_⟩
      · exact Platform.unforged_of_said (.inr ⟨_, hsettled, .reply (.handler hscreen hreply)⟩)
          hanswers.signed hmember
      · intro e he
        refine rpcRequest_ok.mpr ?_
        rw [he]
        exact hok

/-- **A batch confuses its calls.**  Two removals share their request id; the
one that names `p2` is told that `p1` is gone, and no service has seen it. -/
theorem batched_removals_confused : ∃ history later call response earlier owner e,
    shippedPlatform.Run history ∧ history = later ++ .answered call response :: earlier ∧
    .signed call e ∈ earlier ∧ shippedPlatform.Awaited e ∧
    ¬ shippedPlatform.ReplyAgreement earlier owner e response := by
  obtain ⟨e₁, hcall₁, hmeta₁, hpayload₁⟩ := remove_honest .transparent (str "secret") (str "p1")
  obtain ⟨e₂, hcall₂, hmeta₂, hpayload₂⟩ := remove_honest .transparent (str "secret") (str "p2")
  obtain ⟨b, hscreen⟩ := remove_admitted hcall₁ hmeta₁ hpayload₁ 0
  let d := removeDelivery 0 (e₁.wire (removeBody (str "p1")))
  let earlier : List BusEvent := [.settled d (.returned (removeBody (str "p1")).toValue) true,
    .delivered d, .signed 2 e₂, .signed 1 e₁]
  have hsigns₁ : shippedPlatform.Signs e₁ := .inl ⟨_, _, hcall₁.prepared⟩
  have hsigns₂ : shippedPlatform.Signs e₂ := .inl ⟨_, _, hcall₂.prepared⟩
  have hrun : shippedPlatform.Run earlier := by
    have hsigned : shippedPlatform.Run [.signed 2 e₂, .signed 1 e₁] :=
      .next (.next .start ⟨hsigns₁, fun _ => List.not_mem_nil⟩) ⟨hsigns₂, by simp⟩
    refine .next (.next hsigned ⟨?_, by simp⟩) ⟨List.mem_cons_self, ⟨b, _, _, hscreen⟩, by simp⟩
    exact Platform.unforged_wire hsigns₁ (List.mem_cons_of_mem _ List.mem_cons_self) _
  obtain ⟨raw, requestId, signature, hunforged, hreceive⟩ :=
    remove_answered hscreen (List.mem_cons_self : _ ∈ earlier)
  refine ⟨.answered 2 (.message raw) :: earlier, [], 2, .message raw, earlier, .projects, e₂, ?_, rfl,
    by simp [earlier], ?_, ?_⟩
  · refine .next hrun ⟨⟨e₂, by simp [earlier]⟩, by simp [earlier], ?_⟩
    rintro raw' hraw
    obtain rfl := Response.message.inj hraw
    exact hunforged
  · rw [Platform.Awaited, hmeta₂]
    exact ⟨_, rfl, rfl⟩
  · intro hagreement
    have hconclude : shippedPlatform.conclude .projects e₂ (.message raw) =
        .ok (removeBody (str "p1")).toValue := by
      refine Platform.conclude_of_receive (hreceive e₂ hmeta₂) ?_
      rw [hmeta₂]
      rfl
    obtain ⟨d', data, published, received, hsettled, hhandled, -⟩ := hagreement.data _ hconclude
    obtain ⟨rfl, -⟩ : d' = d ∧ data = (removeBody (str "p1")).toValue ∧ published = true := by
      simpa [earlier] using hsettled
    obtain ⟨e', hparse, -, -, hpayload⟩ := hhandled.received
    obtain ⟨r, hpassed⟩ := passed_of_screen hscreen
    obtain ⟨signature', hparse', -⟩ := hpassed.signed
    obtain rfl := Option.some.inj (hparse'.symm.trans hparse)
    rw [hpayload₂] at hpayload
    exact removeBody_ne hpayload

/-- A removal that is the only call of its request is told what became of it. -/
theorem lone_removal_agrees : ∃ history earlier e response,
    history = .answered 1 response :: earlier ∧ shippedPlatform.SeparatedRun history ∧
    shippedPlatform.conclude .projects e response = .ok (removeBody (str "p1")).toValue ∧
    shippedPlatform.ReplyAgreement earlier .projects e response := by
  obtain ⟨e, hcall, hmeta, hpayload⟩ := remove_honest .transparent (str "secret") (str "p1")
  obtain ⟨b, hscreen⟩ := remove_admitted hcall hmeta hpayload 0
  let d := removeDelivery 0 (e.wire (removeBody (str "p1")))
  let earlier : List BusEvent := [.settled d (.returned (removeBody (str "p1")).toValue) true,
    .delivered d, .signed 1 e]
  have hsigns : shippedPlatform.Signs e := .inl ⟨_, _, hcall.prepared⟩
  obtain ⟨raw, requestId, signature, hunforged, hreceive⟩ :=
    remove_answered hscreen (List.mem_cons_self : _ ∈ earlier)
  have hanswerable : shippedPlatform.Answerable d e := by
    intro _ e' hparse _
    obtain ⟨r, hpassed⟩ := passed_of_screen hscreen
    obtain ⟨signature', hparse', hverify⟩ := hpassed.signed
    obtain rfl := Option.some.inj (hparse'.symm.trans hparse)
    rw [hmeta]
    exact ⟨hverify, rfl⟩
  have hrun : shippedPlatform.SeparatedRun (.answered 1 (.message raw) :: earlier) := by
    have hsigned : shippedPlatform.SeparatedRun [.signed 1 e] :=
      .next .start ⟨⟨hsigns, fun _ => List.not_mem_nil⟩, by simp⟩
    refine .next (.next (.next hsigned ⟨⟨?_, by simp⟩, ?_⟩)
      ⟨⟨List.mem_cons_self, ⟨b, _, _, hscreen⟩, by simp⟩, ?_⟩)
      ⟨⟨⟨e, by simp [earlier]⟩, by simp [earlier], ?_⟩, ?_⟩
    · exact Platform.unforged_wire hsigns List.mem_cons_self _
    · intro event hevent
      obtain rfl := List.mem_singleton.mp hevent
      exact hanswerable
    · exact fun _ _ => trivial
    · rintro raw' hraw
      obtain rfl := Response.message.inj hraw
      exact hunforged
    · exact fun _ _ => trivial
  have hawaited : shippedPlatform.Awaited e := by
    rw [Platform.Awaited, hmeta]
    exact ⟨_, rfl, rfl⟩
  refine ⟨_, earlier, e, .message raw, rfl, hrun, ?_, ?_⟩
  · refine Platform.conclude_of_receive (hreceive e hmeta) ?_
    rw [hmeta]
    rfl
  · exact shippedPlatform.reply_agreement _ hrun [] 1 (.message raw) earlier rfl .projects e
      (by simp [earlier]) hawaited

end Guardrail
