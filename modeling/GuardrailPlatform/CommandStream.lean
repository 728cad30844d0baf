import GuardrailPlatform.Contracts
import GuardrailPlatform.JetStream

/-!
# Accepted commands on the stream

Step 8 of `dispatch` for the operations whose transport is a command: the
envelope is published under the request id, and the call is accepted once the
publish has returned.  Whether the envelope was stored is not looked at, so two
calls of one batch are one message.
-/

namespace Guardrail

open Js DedupLog

/-- One `dispatch` of a command, and when its publish reaches the stream. -/
structure CommandCall where
  args : DispatchArgs
  deps : DepsAnswers
  publishedAt : ℤ
  outcome : PublishOutcome

variable (crypto : Crypto) (secret : JSString) (reg : Registry) (contracts : ContractMap)

/-- The JSON `publishCommand` sends, where the call gets that far. -/
def CommandCall.message (c : CommandCall) : Option Json :=
  match prepare crypto secret reg contracts c.args c.deps with
  | .error _ => none
  | .ok e => encode e.toValue

/-- `dispatch` of a command. -/
def dispatchCommand (stream : Stream) (c : CommandCall) : Stream × Except DispatchError Value :=
  match prepare crypto secret reg contracts c.args c.deps with
  | .error error => (stream, .error error)
  | .ok e =>
    let (stream, returned) := publishCommand stream c.publishedAt
      (commandSubject c.args.resource c.args.operation) e c.outcome
    (stream, if returned then accept (contracts c.args.resource c.args.operation)
      e.requestMeta.requestId else .error .threw)

/-- The CMD stream after the calls, the latest first. -/
def streamAfter : List CommandCall → Stream
  | [] => []
  | c :: earlier => (dispatchCommand crypto secret reg contracts (streamAfter earlier) c).1

/-- What the calls that were told `{accepted: true}` published. -/
def acceptedMessages : List CommandCall → List (JSString × Json)
  | [] => []
  | c :: earlier =>
    match (dispatchCommand crypto secret reg contracts
        (streamAfter crypto secret reg contracts earlier) c).2,
      c.message crypto secret reg contracts with
    | .ok _, some raw =>
      (commandSubject c.args.resource c.args.operation, raw) :: acceptedMessages earlier
    | _, _ => acceptedMessages earlier

/-- Every publish that is acknowledged finds its request id fresh. -/
def FreshIds : List CommandCall → Prop
  | [] => True
  | c :: earlier =>
    (∀ raw, c.message crypto secret reg contracts = some raw → c.outcome = .acknowledged →
      (streamAfter crypto secret reg contracts earlier).remembers c.publishedAt c.args.requestId =
        false) ∧ FreshIds earlier

variable {crypto secret reg contracts}

theorem suffix_dispatchCommand (stream : Stream) (c : CommandCall) :
    stream <:+ (dispatchCommand crypto secret reg contracts stream c).1 := by
  unfold dispatchCommand
  split
  · exact List.suffix_rfl
  · exact suffix_publish

/-- An accepted call has published its message on the stream, and that publish was
acknowledged. -/
theorem published_of_accepted {stream : Stream} {c : CommandCall} {output : Value}
    (h : (dispatchCommand crypto secret reg contracts stream c).2 = .ok output) :
    ∃ raw, c.message crypto secret reg contracts = some raw ∧ c.outcome = .acknowledged ∧
      (dispatchCommand crypto secret reg contracts stream c).1 =
        stream.store c.publishedAt (commandSubject c.args.resource c.args.operation)
          c.args.requestId raw := by
  unfold dispatchCommand at h ⊢
  cases hprepare : prepare crypto secret reg contracts c.args c.deps with
  | error error =>
      rw [hprepare] at h
      cases h
  | ok e =>
      rw [hprepare] at h
      obtain ⟨identity, rule, hp⟩ := prepared_of_prepare hprepare
      have hid : e.requestMeta.requestId = c.args.requestId := by rw [hp.requestMeta]; rfl
      cases hencode : encode e.toValue with
      | none =>
          simp only [publishCommand, publish, hencode] at h
          cases h
      | some raw =>
          simp only [publishCommand, publish_of_encode hencode] at h ⊢
          refine ⟨raw, by simp only [CommandCall.message, hprepare, hencode], ?_⟩
          cases houtcome : c.outcome with
          | threw reached =>
              rw [houtcome] at h
              cases h
          | acknowledged => exact ⟨rfl, by rw [hid]; rfl⟩

/-- **No accepted command is lost**, where every publish finds its request id fresh. -/
theorem accepted_commands_stored (crypto : Crypto) (secret : JSString) (reg : Registry)
    (contracts : ContractMap) (calls : List CommandCall)
    (hfresh : FreshIds crypto secret reg contracts calls) :
    (acceptedMessages crypto secret reg contracts calls).Subperm
      ((streamAfter crypto secret reg contracts calls).map Entry.body) := by
  induction calls with
  | nil => exact List.Subperm.refl _
  | cons c earlier ih =>
      obtain ⟨hc, hearlier⟩ := hfresh
      rw [streamAfter, acceptedMessages]
      split
      · rename_i output raw hok hmessage
        obtain ⟨raw', hmessage', houtcome, hpublished⟩ := published_of_accepted hok
        obtain rfl := Option.some.inj (hmessage.symm.trans hmessage')
        rw [hpublished, store_of_fresh (hc raw hmessage houtcome), List.map_cons]
        exact (List.subperm_cons _).mpr (ih hearlier)
      · exact (ih hearlier).trans ((suffix_dispatchCommand _ c).sublist.map Entry.body).subperm

/-! ## Two invitations in one batch -/

def inviter : GatewayIdentity := { userId := str "ada", orgId := str "acme", role := .admin }

/-- `member.create`, for an address. -/
def inviteCall (email : JSString) : CommandCall :=
  { args :=
      { requestId := str "request-1", resource := str "member", operation := .create,
        input := .object [(str "email", .string email), (str "role", .string (str "member"))] }
    deps :=
      { identity := some inviter
        verdict := { ok := true, retryAfterSeconds := 0 }
        entitlements := { plan := str "free", usage := fun _ => none }
        issuedAt := 1000 }
    publishedAt := 1000
    outcome := .acknowledged }

def inviteBody (email : JSString) : Json :=
  .object [(str "email", .string email), (str "role", .string (str "member"))]

def inviteMeta : RequestMeta :=
  metaFor registry (inviteCall []).args inviter
    { mutationRule .admin true 8000 with transport := .command } (inviteCall []).deps

/-- The message that an invitation is sent as, where its body passes the contract. -/
theorem invite_message {email : JSString}
    (hinput : (contractFor roughFormats (str "member") .create).input (inviteCall email).args.input =
      some (inviteBody email).toValue) :
    ∃ raw, (inviteCall email).message .transparent (str "secret") registry (contractFor roughFormats) =
      some raw ∧ ∀ stream, dispatchCommand .transparent (str "secret") registry
        (contractFor roughFormats) stream (inviteCall email) =
          (stream.store 1000 (str "cmd.member.create") (str "request-1") raw,
            accept (contractFor roughFormats (str "member") .create) (str "request-1")) := by
  obtain ⟨signature, hsign⟩ := @Statement.sign_isSome .transparent
    (.envelope .request inviteMeta (inviteBody email).toValue) _ (canonicalJson_toValue _)
    (str "secret")
  let e : Envelope := ⟨inviteMeta, (inviteBody email).toValue, signature⟩
  have hprepare : prepare .transparent (str "secret") registry (contractFor roughFormats)
      (inviteCall email).args (inviteCall email).deps = .ok e :=
    @prepare_of_passes .transparent (str "secret") registry (contractFor roughFormats)
      (inviteCall email).args (inviteCall email).deps inviter
      { mutationRule .admin true 8000 with transport := .command } (inviteBody email).toValue
      signature rfl rfl (by decide) rfl rfl rfl rfl hinput hsign
  have hencode : encode e.toValue = some (e.wire (inviteBody email)) := encode_envelope rfl
  refine ⟨e.wire (inviteBody email), ?_, ?_⟩
  · rw [CommandCall.message, hprepare]
    exact hencode
  · intro stream
    simp only [dispatchCommand, hprepare, publishCommand, publish_of_encode hencode]
    rfl

/-- **A batch loses a command.**  Both invitations are accepted under one
request id, and the stream keeps the first. -/
theorem batched_invitation_lost :
    ¬ (acceptedMessages .transparent (str "secret") registry (contractFor roughFormats)
        [inviteCall (str "b@b.io"), inviteCall (str "a@a.io")]).Subperm
      ((streamAfter .transparent (str "secret") registry (contractFor roughFormats)
        [inviteCall (str "b@b.io"), inviteCall (str "a@a.io")]).map Entry.body) := by
  obtain ⟨raw₁, hmessage₁, hdispatch₁⟩ := @invite_message (str "a@a.io") rfl
  obtain ⟨raw₂, hmessage₂, hdispatch₂⟩ := @invite_message (str "b@b.io") rfl
  have haccepted : accept (contractFor roughFormats (str "member") .create) (str "request-1") =
      .ok (.object [(str "accepted", .bool true), (str "requestId", .string (str "request-1"))]) :=
    rfl
  intro hkept
  have hlength := hkept.length_le
  simp only [acceptedMessages, streamAfter, hdispatch₁, hdispatch₂, hmessage₁, hmessage₂, haccepted,
    List.length_map] at hlength
  simp [Stream.store, offer, holds, inWindow, duplicateWindowMs] at hlength

/-- An invitation published on its own is stored, so what was accepted is in the stream. -/
theorem lone_invitation_stored : ∃ raw,
    acceptedMessages .transparent (str "secret") registry (contractFor roughFormats)
      [inviteCall (str "a@a.io")] = [(str "cmd.member.create", raw)] ∧
    [(str "cmd.member.create", raw)].Subperm
      ((streamAfter .transparent (str "secret") registry (contractFor roughFormats)
        [inviteCall (str "a@a.io")]).map Entry.body) := by
  obtain ⟨raw, hmessage, hdispatch⟩ := @invite_message (str "a@a.io") rfl
  have hone : acceptedMessages .transparent (str "secret") registry (contractFor roughFormats)
      [inviteCall (str "a@a.io")] = [(str "cmd.member.create", raw)] := by
    simp only [acceptedMessages, streamAfter, hdispatch, hmessage]
    rfl
  refine ⟨raw, hone, hone ▸ accepted_commands_stored .transparent (str "secret") registry
    (contractFor roughFormats) [inviteCall (str "a@a.io")] ⟨fun _ _ _ => rfl, trivial⟩⟩

end Guardrail
