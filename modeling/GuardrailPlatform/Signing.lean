import GuardrailPlatform.Envelope
import GuardrailPlatform.Utf8

/-!
# Signatures

Every signature is an HMAC over a canonical record: an envelope under a domain
tag, or a reply bound to what it answers.  The primitives are parameters, and
idealised: no two texts have one digest.  `Statement` is what a MAC vouches
for; `Statement.agrees_of_canonical` says that one text vouches for one
statement, up to what the canonical form forgets, and the theorems about the
protocol rest on it alone.
-/

namespace Guardrail

open Js

/-- SHA-256 and HMAC-SHA256, their digests as base64url text. -/
structure Crypto where
  sha256 : JSString → JSString
  hmac : JSString → JSString → JSString
  sha256_injective : Function.Injective sha256
  hmac_injective : ∀ secret, Function.Injective (fun canonical => hmac canonical secret)
  hmac_ascii : ∀ canonical secret, IsAscii (hmac canonical secret)
  hmac_length : ∀ canonical secret, 16 ≤ (hmac canonical secret).length

/-! ## What is signed -/

/-- What kind of envelope a MAC covers. -/
inductive MacDomain
  | request
  | event
deriving DecidableEq

def MacDomain.name : MacDomain → JSString
  | .request => str "request"
  | .event => str "event"

/-- `CURRENT_KEY_ID`. -/
def currentKeyId : JSString := str "v1"

/-- What a reply signature is bound to. -/
structure ReplyBinding where
  requestId : JSString
  resource : JSString
  operation : JSString
  ok : Bool
deriving DecidableEq

variable (crypto : Crypto)

/-- Binds a body into a signature without copying it in. -/
def contentHash (value : Value) : Option JSString := (canonicalJson value).map crypto.sha256

/-- `[...permissions].sort()`. -/
def sortTexts (texts : List JSString) : List JSString := texts.insertionSort (· ≤ ·)

/-- The record an envelope signature covers. -/
def envelopeRecord (domain : MacDomain) (m : RequestMeta) (payloadHash : JSString) :
    List (JSString × Json) :=
  [(str "domain", .string domain.name),
    (str "keyId", .string currentKeyId),
    (str "requestId", .string m.requestId),
    (str "orgId", .string m.orgId),
    (str "userId", .string m.userId),
    (str "role", .string m.role.name),
    (str "permissions", .array ((sortTexts m.permissions).map .string)),
    (str "plan", .string m.plan),
    (str "resource", .string m.resource),
    (str "operation", .string m.operation.name),
    (str "issuedAt", .number (.ofInt m.issuedAt)),
    (str "deadlineAt", .number (.ofInt m.deadlineAt)),
    (str "traceparent", (m.traceparent.map Json.string).getD .null),
    (str "payloadHash", .string payloadHash)]

/-- The exact text an envelope signature covers. -/
def canonicalEnvelope (domain : MacDomain) (m : RequestMeta) (payload : Value) : Option JSString :=
  (contentHash crypto payload).bind fun payloadHash =>
    canonicalJson (Json.object (envelopeRecord domain m payloadHash)).toValue

def canonicalRequest (m : RequestMeta) (payload : Value) : Option JSString :=
  canonicalEnvelope crypto .request m payload

def canonicalEvent (m : RequestMeta) (payload : Value) : Option JSString :=
  canonicalEnvelope crypto .event m payload

/-- The record a reply signature covers. -/
def replyRecord (binding : ReplyBinding) (dataHash : JSString) : List (JSString × Json) :=
  [(str "keyId", .string currentKeyId),
    (str "requestId", .string binding.requestId),
    (str "resource", .string binding.resource),
    (str "operation", .string binding.operation),
    (str "ok", .bool binding.ok),
    (str "dataHash", .string dataHash)]

/-- The exact text a reply signature covers. -/
def canonicalReply (binding : ReplyBinding) (data : Value) : Option JSString :=
  (contentHash crypto data).bind fun dataHash =>
    canonicalJson (Json.object (replyRecord binding dataHash)).toValue

/-! ## Signing and verifying -/

/-- `matches`: equal bytes. -/
def bytesMatch (expected actual : JSString) : Bool := utf8 expected == utf8 actual

def signRequest (m : RequestMeta) (payload : Value) (secret : JSString) : Option JSString :=
  (canonicalRequest crypto m payload).map (crypto.hmac · secret)

def signEvent (m : RequestMeta) (payload : Value) (secret : JSString) : Option JSString :=
  (canonicalEvent crypto m payload).map (crypto.hmac · secret)

def signReply (binding : ReplyBinding) (data : Value) (secret : JSString) : Option JSString :=
  (canonicalReply crypto binding data).map (crypto.hmac · secret)

/-- A body that cannot be signed is refused, not thrown. -/
def verifyAgainst (expected : Option JSString) (signature : JSString) : Bool :=
  match expected with
  | some expected => bytesMatch expected signature
  | none => false

def verifyRequest (m : RequestMeta) (payload : Value) (signature secret : JSString) : Bool :=
  verifyAgainst (signRequest crypto m payload secret) signature

def verifyEvent (m : RequestMeta) (payload : Value) (signature secret : JSString) : Bool :=
  verifyAgainst (signEvent crypto m payload secret) signature

def verifyReply (binding : ReplyBinding) (data : Value) (signature secret : JSString) : Bool :=
  verifyAgainst (signReply crypto binding data secret) signature

/-! ## Statements -/

/-- What a MAC vouches for. -/
inductive Statement
  | envelope (domain : MacDomain) (m : RequestMeta) (payload : Value)
  | reply (binding : ReplyBinding) (data : Value)

/-- The text the MAC of a statement covers. -/
def Statement.canonical : Statement → Option JSString
  | .envelope domain m payload => canonicalEnvelope crypto domain m payload
  | .reply binding data => canonicalReply crypto binding data

/-- The MAC of a statement. -/
def Statement.sign (s : Statement) (secret : JSString) : Option JSString :=
  (s.canonical crypto).map (crypto.hmac · secret)

/-- Equal in every field, the permissions in any order. -/
def RequestMeta.Agrees (m m' : RequestMeta) : Prop :=
  m = { m' with permissions := m.permissions } ∧ m.permissions.Perm m'.permissions

/-- The same statement, up to the order of permissions and of object members. -/
def Statement.Agrees : Statement → Statement → Prop
  | .envelope domain m payload, .envelope domain' m' payload' =>
    domain = domain' ∧ m.Agrees m' ∧ SameProjection payload payload'
  | .reply binding data, .reply binding' data' => binding = binding' ∧ SameProjection data data'
  | _, _ => False

variable {crypto}

/-- A signature is compared as bytes, which for ASCII text is a comparison of
texts. -/
theorem bytesMatch_iff {expected actual : JSString} (h : IsAscii expected) :
    bytesMatch expected actual = true ↔ expected = actual := by
  rw [bytesMatch, beq_iff_eq]
  exact ⟨ascii_of_utf8_eq h, congrArg utf8⟩

/-- A verifier accepts the one MAC of the statement, and nothing where it has none. -/
theorem verifyAgainst_iff {s : Statement} {signature secret : JSString} :
    verifyAgainst (s.sign crypto secret) signature = true ↔
      s.sign crypto secret = some signature := by
  cases hs : s.sign crypto secret with
  | none => simp [verifyAgainst]
  | some expected =>
      obtain ⟨canonical, -, rfl⟩ := Option.map_eq_some_iff.mp hs
      rw [verifyAgainst, bytesMatch_iff (crypto.hmac_ascii _ _), Option.some.injEq]

theorem signRequest_eq (m : RequestMeta) (payload : Value) (secret : JSString) :
    signRequest crypto m payload secret =
      (Statement.envelope .request m payload).sign crypto secret := rfl

theorem signEvent_eq (m : RequestMeta) (payload : Value) (secret : JSString) :
    signEvent crypto m payload secret =
      (Statement.envelope .event m payload).sign crypto secret := rfl

theorem signReply_eq (binding : ReplyBinding) (data : Value) (secret : JSString) :
    signReply crypto binding data secret = (Statement.reply binding data).sign crypto secret := rfl

/-- A request verifies exactly where signing it again with the secret gives the signature it
carries. -/
theorem verifyRequest_iff {m : RequestMeta} {payload : Value} {signature secret : JSString} :
    verifyRequest crypto m payload signature secret = true ↔
      (Statement.envelope .request m payload).sign crypto secret = some signature :=
  verifyAgainst_iff (s := .envelope .request m payload)

/-- An event verifies exactly where signing it again with the secret gives the signature it
carries. -/
theorem verifyEvent_iff {m : RequestMeta} {payload : Value} {signature secret : JSString} :
    verifyEvent crypto m payload signature secret = true ↔
      (Statement.envelope .event m payload).sign crypto secret = some signature :=
  verifyAgainst_iff (s := .envelope .event m payload)

/-- A reply verifies exactly where signing it again with the secret gives the signature it
carries. -/
theorem verifyReply_iff {binding : ReplyBinding} {data : Value} {signature secret : JSString} :
    verifyReply crypto binding data signature secret = true ↔
      (Statement.reply binding data).sign crypto secret = some signature :=
  verifyAgainst_iff (s := .reply binding data)

/-- The body a statement is about. -/
def Statement.body : Statement → Value
  | .envelope _ _ payload => payload
  | .reply _ data => data

/-- A statement whose body has a canonical text is always signed, whatever the secret. -/
theorem Statement.sign_isSome {s : Statement} {text : JSString}
    (h : canonicalJson s.body = some text) (secret : JSString) :
    ∃ signature, s.sign crypto secret = some signature := by
  cases s <;>
    simp only [body] at h <;>
    simp [sign, canonical, canonicalEnvelope, canonicalReply, contentHash, canonicalJson_toValue, h]

/-! ## One text, one statement -/

@[simp] theorem signedForm_string (s : JSString) : signedForm (.string s) = .string s := rfl

@[simp] theorem signedForm_bool (b : Bool) : signedForm (.bool b) = .bool b := rfl

/-- An integer is signed as it is: its zero has no sign. -/
@[simp] theorem signedForm_ofInt (z : ℤ) :
    signedForm (.number (.ofInt z)) = .number (.ofInt z) :=
  congrArg Json.number (Finite.ofInt_unsignZero z)

/-- An array of strings is signed as it stands, with its order kept. -/
@[simp] theorem signedForm_strings (ss : List JSString) :
    signedForm (.array (ss.map .string)) = .array (ss.map .string) := by
  rw [signedForm, Json.sortKeys, Json.unsign, Json.sortItems_eq_map, Json.unsignItems_eq_map,
    List.map_map, List.map_map]
  rfl

/-- A string, or `null` in its place, is signed as it is. -/
@[simp] theorem signedForm_optional (s : Option JSString) :
    signedForm ((s.map Json.string).getD .null) = (s.map Json.string).getD .null := by
  cases s <;> rfl

/-- Requests, events and replies are signed under three different names, so none passes for
another. -/
theorem MacDomain.name_injective : Function.Injective MacDomain.name := by
  intro a b h
  cases a <;> cases b <;> first | rfl | exact absurd h (by decide)

/-- A string that is missing is told from every string that is there. -/
theorem optional_injective {s s' : Option JSString}
    (h : (s.map Json.string).getD .null = (s'.map Json.string).getD .null) : s = s' := by
  cases s <;> cases s' <;> simp_all

/-- Permissions that are the same once sorted are the same up to their order. -/
theorem perm_of_sortTexts {ss ss' : List JSString}
    (h : (sortTexts ss).map Json.string = (sortTexts ss').map Json.string) : ss.Perm ss' := by
  have hsorted := List.map_injective_iff.mpr (fun _ _ => Json.string.inj) h
  have hperm : (sortTexts ss').Perm ss' := List.perm_insertionSort _ ss'
  rw [← hsorted] at hperm
  exact (List.perm_insertionSort _ ss).symm.trans hperm

/-- The record that is signed for an envelope names each of its fields once. -/
theorem envelopeRecord_nodup (domain : MacDomain) (m : RequestMeta) (hash : JSString) :
    ((envelopeRecord domain m hash).map Prod.fst).Nodup := by
  simp only [envelopeRecord, List.map_cons, List.map_nil]
  decide

/-- The record that is signed for a reply names each of its fields once. -/
theorem replyRecord_nodup (binding : ReplyBinding) (hash : JSString) :
    ((replyRecord binding hash).map Prod.fst).Nodup := by
  simp only [replyRecord, List.map_cons, List.map_nil]
  decide

/-- An envelope record determines its domain, its meta and its payload's hash. -/
theorem envelopeRecord_injective {domain domain' : MacDomain} {m m' : RequestMeta}
    {hash hash' : JSString}
    (h : canonicalJson (Json.object (envelopeRecord domain m hash)).toValue =
      canonicalJson (Json.object (envelopeRecord domain' m' hash')).toValue) :
    domain = domain' ∧ m.Agrees m' ∧ hash = hash' := by
  have hrecord := record_injective h rfl (envelopeRecord_nodup domain m hash)
  simp only [envelopeRecord, mapValues, List.map_cons, List.map_nil, List.cons.injEq,
    Prod.mk.injEq, true_and, and_true, signedForm_string, signedForm_strings, signedForm_ofInt,
    signedForm_optional, Json.string.injEq, Json.array.injEq, Json.number.injEq] at hrecord
  obtain ⟨hdomain, hrequest, horg, huser, hrole, hpermissions, hplan, hresource, hoperation,
    hissued, hdeadline, htrace, hhash⟩ := hrecord
  refine ⟨MacDomain.name_injective hdomain, ⟨?_, perm_of_sortTexts hpermissions⟩, hhash⟩
  have hrole := OrgRole.name_injective hrole
  have hoperation := Operation.name_injective hoperation
  have hissued := Finite.ofInt_injective hissued
  have hdeadline := Finite.ofInt_injective hdeadline
  have htrace := optional_injective htrace
  cases m
  simp_all

/-- Equal canonical texts of two replies are the texts of one reply. -/
theorem replyRecord_injective {binding binding' : ReplyBinding} {hash hash' : JSString}
    (h : canonicalJson (Json.object (replyRecord binding hash)).toValue =
      canonicalJson (Json.object (replyRecord binding' hash')).toValue) :
    binding = binding' ∧ hash = hash' := by
  have hrecord := record_injective h rfl (replyRecord_nodup binding hash)
  simp only [replyRecord, mapValues, List.map_cons, List.map_nil, List.cons.injEq,
    Prod.mk.injEq, true_and, and_true, signedForm_string, signedForm_bool, Json.string.injEq,
    Json.bool.injEq] at hrecord
  cases binding
  simp_all

/-- The two layouts differ in how many members they have, so their texts are never equal. -/
theorem envelopeRecord_ne_replyRecord {domain : MacDomain} {m : RequestMeta}
    {binding : ReplyBinding} {hash hash' : JSString} :
    canonicalJson (Json.object (envelopeRecord domain m hash)).toValue ≠
      canonicalJson (Json.object (replyRecord binding hash')).toValue :=
  fun h => by simpa [mapValues, envelopeRecord, replyRecord] using (record_perm h).length_eq

/-- Values of one hash have one canonical text, so JSON cannot tell them apart. -/
theorem sameProjection_of_contentHash {v w : Value} {hash : JSString}
    (hv : contentHash crypto v = some hash) (hw : contentHash crypto w = some hash) :
    SameProjection v w := by
  obtain ⟨text, htext, rfl⟩ := Option.map_eq_some_iff.mp hv
  obtain ⟨text', htext', heq⟩ := Option.map_eq_some_iff.mp hw
  exact sameProjection_of_canonicalJson htext (crypto.sha256_injective heq ▸ htext')

/-- **One text, one statement**: statements with the same canonical text agree in everything
signed. -/
theorem Statement.agrees_of_canonical {s s' : Statement} {text : JSString}
    (h : s.canonical crypto = some text) (h' : s'.canonical crypto = some text) : s.Agrees s' := by
  rcases s with ⟨domain, m, payload⟩ | ⟨binding, data⟩ <;>
    rcases s' with ⟨domain', m', payload'⟩ | ⟨binding', data'⟩ <;>
    obtain ⟨hash, hhash, htext⟩ := Option.bind_eq_some_iff.mp h <;>
    obtain ⟨hash', hhash', htext'⟩ := Option.bind_eq_some_iff.mp h' <;>
    have hsame := htext.trans htext'.symm
  · obtain ⟨hdomain, hm, rfl⟩ := envelopeRecord_injective hsame
    exact ⟨hdomain, hm, sameProjection_of_contentHash hhash hhash'⟩
  · exact envelopeRecord_ne_replyRecord hsame
  · exact envelopeRecord_ne_replyRecord hsame.symm
  · obtain ⟨hbinding, rfl⟩ := replyRecord_injective hsame
    exact ⟨hbinding, sameProjection_of_contentHash hhash hhash'⟩

/-- **One MAC, one statement**: statements with the same signature agree in everything
signed. -/
theorem Statement.agrees_of_sign {s s' : Statement} {signature secret : JSString}
    (h : s.sign crypto secret = some signature) (h' : s'.sign crypto secret = some signature) :
    s.Agrees s' := by
  obtain ⟨text, htext, rfl⟩ := Option.map_eq_some_iff.mp h
  obtain ⟨text', htext', heq⟩ := Option.map_eq_some_iff.mp h'
  exact agrees_of_canonical htext (crypto.hmac_injective secret heq ▸ htext')

/-! ## Across the codec -/

/-- A value is hashed as what JSON makes of it, so the far end hashes the same. -/
theorem contentHash_of_project {v : Value} {p : Json} {hash : JSString}
    (h : contentHash crypto v = some hash) (hp : project v = .json p) :
    contentHash crypto p.toValue = some hash := by
  obtain ⟨text, htext, rfl⟩ := Option.map_eq_some_iff.mp h
  rw [contentHash, canonicalJson_of_project htext hp, Option.map_some]

/-- A body that was signed is one that has a canonical form. -/
theorem canonicalise_of_sign {s : Statement} {signature secret : JSString}
    (h : s.sign crypto secret = some signature) : (canonicalise s.body).isSome = true := by
  obtain ⟨text, htext, -⟩ := Option.map_eq_some_iff.mp h
  have hhash : ∃ hash, contentHash crypto s.body = some hash := by
    cases s <;> exact (Option.bind_eq_some_iff.mp htext).imp fun _ => And.left
  obtain ⟨hash, hhash⟩ := hhash
  obtain ⟨body, hbody, -⟩ := Option.map_eq_some_iff.mp hhash
  obtain ⟨c, hc, -⟩ := Option.map_eq_some_iff.mp hbody
  exact Option.isSome_iff_exists.mpr ⟨c, hc⟩

/-- A body that could be signed is one that JSON keeps as a value. -/
theorem project_of_sign {s : Statement} {signature secret : JSString}
    (h : s.sign crypto secret = some signature) : ∃ p, project s.body = .json p := by
  obtain ⟨c, hc⟩ := Option.isSome_iff_exists.mp (canonicalise_of_sign h)
  obtain ⟨p, hp, -⟩ := project_of_canonicalise hc
  exact ⟨p, hp⟩

/-- **MACs survive the codec.**  A body that crossed the wire has the MAC it
had before. -/
theorem sign_envelope_of_project {domain : MacDomain} {m : RequestMeta} {v : Value} {p : Json}
    {signature secret : JSString}
    (h : (Statement.envelope domain m v).sign crypto secret = some signature)
    (hp : project v = .json p) :
    (Statement.envelope domain m p.toValue).sign crypto secret = some signature := by
  obtain ⟨text, htext, rfl⟩ := Option.map_eq_some_iff.mp h
  obtain ⟨hash, hhash, hrecord⟩ := Option.bind_eq_some_iff.mp htext
  have hcanonical : (Statement.envelope domain m p.toValue).canonical crypto = some text :=
    Option.bind_eq_some_iff.mpr ⟨hash, contentHash_of_project hhash hp, hrecord⟩
  rw [Statement.sign, hcanonical, Option.map_some]

/-- A reply's signature still verifies over its data as JSON has brought it. -/
theorem sign_reply_of_project {binding : ReplyBinding} {v : Value} {p : Json}
    {signature secret : JSString}
    (h : (Statement.reply binding v).sign crypto secret = some signature)
    (hp : project v = .json p) :
    (Statement.reply binding p.toValue).sign crypto secret = some signature := by
  obtain ⟨text, htext, rfl⟩ := Option.map_eq_some_iff.mp h
  obtain ⟨hash, hhash, hrecord⟩ := Option.bind_eq_some_iff.mp htext
  have hcanonical : (Statement.reply binding p.toValue).canonical crypto = some text :=
    Option.bind_eq_some_iff.mpr ⟨hash, contentHash_of_project hhash hp, hrecord⟩
  rw [Statement.sign, hcanonical, Option.map_some]

/-- A signature, written in hexadecimal, is as long as the envelope's schema asks for. -/
theorem length_of_sign {s : Statement} {signature secret : JSString}
    (h : s.sign crypto secret = some signature) : 16 ≤ signature.length := by
  obtain ⟨text, -, rfl⟩ := Option.map_eq_some_iff.mp h
  exact crypto.hmac_length text secret

/-! ## The primitives are not contradictory -/

theorem hexDigit_injective {a b : ℕ} (ha : a < 16) (hb : b < 16) (h : hexDigit a = hexDigit b) :
    a = b := by
  rw [← hexValue_hexDigit ha, h, hexValue_hexDigit hb]

/-- An escape of four digits says where it ends, so the unit can be read off it. -/
theorem unicodeEscape_append_injective {u v : UInt16} {s t : JSString}
    (h : unicodeEscape u ++ s = unicodeEscape v ++ t) : u = v ∧ s = t := by
  simp only [unicodeEscape, List.cons_append, List.nil_append, List.cons.injEq, true_and] at h
  obtain ⟨h₃, h₂, h₁, h₀, hrest⟩ := h
  have h₃ := hexDigit_injective (Nat.mod_lt _ (by decide)) (Nat.mod_lt _ (by decide)) h₃
  have h₂ := hexDigit_injective (Nat.mod_lt _ (by decide)) (Nat.mod_lt _ (by decide)) h₂
  have h₁ := hexDigit_injective (Nat.mod_lt _ (by decide)) (Nat.mod_lt _ (by decide)) h₁
  have h₀ := hexDigit_injective (Nat.mod_lt _ (by decide)) (Nat.mod_lt _ (by decide)) h₀
  have := u.toNat_lt
  have := v.toNat_lt
  exact ⟨UInt16.toNat_inj.mp (by omega), hrest⟩

/-- A text can be read off its escapes, which makes them a stand-in for a hash. -/
theorem flatMap_unicodeEscape_injective :
    Function.Injective (fun s : JSString => s.flatMap unicodeEscape) := by
  intro s t h
  induction s generalizing t with
  | nil => cases t with
    | nil => rfl
    | cons v t => cases h
  | cons u s ih => cases t with
    | nil => cases h
    | cons v t =>
        obtain ⟨rfl, hrest⟩ := unicodeEscape_append_injective h
        rw [ih hrest]

/-- Escapes are ASCII, as the signature of a text in hexadecimal is. -/
theorem unicodeEscape_ascii (u : UInt16) : IsAscii (unicodeEscape u) := by
  have hdigit : ∀ n < 16, (hexDigit n).toNat < 0x80 := by decide
  intro v hv
  simp only [unicodeEscape, List.mem_cons, List.not_mem_nil, or_false] at hv
  rcases hv with rfl | rfl | rfl | rfl | rfl | rfl
  · decide
  · decide
  all_goals exact hdigit _ (Nat.mod_lt _ (by decide))

/-- Primitives that hide nothing: the digest is the text, spelled in ASCII. -/
def Crypto.transparent : Crypto where
  sha256 := id
  hmac canonical _ := List.replicate 16 65 ++ canonical.flatMap unicodeEscape
  sha256_injective := Function.injective_id
  hmac_injective _ _ _ h := flatMap_unicodeEscape_injective (List.append_cancel_left h)
  hmac_ascii canonical _ u hu := by
    rcases List.mem_append.mp hu with hu | hu
    · rw [List.eq_of_mem_replicate hu]
      decide
    · obtain ⟨v, -, hv⟩ := List.mem_flatMap.mp hu
      exact unicodeEscape_ascii v u hv
  hmac_length canonical _ := by simp

instance : Inhabited Crypto := ⟨.transparent⟩

/-! ## Injectivity and domain separation -/

/-- A signature made for one statement and accepted for another: they agree. -/
theorem agrees_of_verify {s s' : Statement} {signature secret : JSString}
    (hsign : s'.sign crypto secret = some signature)
    (hverify : verifyAgainst (s.sign crypto secret) signature = true) : s.Agrees s' :=
  Statement.agrees_of_sign (verifyAgainst_iff.mp hverify) hsign

/-- A signature made for one statement is refused for one that does not agree. -/
theorem refused_of_not_agrees {s s' : Statement} {signature secret : JSString}
    (hsign : s'.sign crypto secret = some signature) (h : ¬ s.Agrees s') :
    verifyAgainst (s.sign crypto secret) signature = false :=
  Bool.eq_false_iff.mpr (fun hverify => h (agrees_of_verify hsign hverify))

/-- **MAC injectivity and domain separation.**  Each verifier accepts only
signatures of its own signer, over the same meta and the same body. -/
theorem signatures_bind (crypto : Crypto) (secret : JSString) :
    (∀ m m' payload payload' signature,
      signRequest crypto m' payload' secret = some signature →
      verifyRequest crypto m payload signature secret = true →
      m.Agrees m' ∧ SameProjection payload payload') ∧
    (∀ m m' payload payload' signature,
      signEvent crypto m' payload' secret = some signature →
      verifyEvent crypto m payload signature secret = true →
      m.Agrees m' ∧ SameProjection payload payload') ∧
    (∀ binding binding' data data' signature,
      signReply crypto binding' data' secret = some signature →
      verifyReply crypto binding data signature secret = true →
      binding = binding' ∧ SameProjection data data') ∧
    (∀ m payload signature, signRequest crypto m payload secret = some signature →
      (∀ m' payload', verifyEvent crypto m' payload' signature secret = false) ∧
      ∀ binding data, verifyReply crypto binding data signature secret = false) ∧
    (∀ m payload signature, signEvent crypto m payload secret = some signature →
      (∀ m' payload', verifyRequest crypto m' payload' signature secret = false) ∧
      ∀ binding data, verifyReply crypto binding data signature secret = false) ∧
    (∀ binding data signature, signReply crypto binding data secret = some signature →
      (∀ m payload, verifyRequest crypto m payload signature secret = false) ∧
      ∀ m payload, verifyEvent crypto m payload signature secret = false) := by
  simp only [verifyRequest, verifyEvent, verifyReply, signRequest_eq, signEvent_eq, signReply_eq]
  have hdomain : ∀ {m m' payload payload'},
      ¬ (Statement.envelope .event m' payload').Agrees (.envelope .request m payload) :=
    fun h => MacDomain.noConfusion h.1
  have hdomain' : ∀ {m m' payload payload'},
      ¬ (Statement.envelope .request m' payload').Agrees (.envelope .event m payload) :=
    fun h => MacDomain.noConfusion h.1
  refine ⟨?_, ?_, ?_, ?_, ?_, ?_⟩
  · exact fun _ _ _ _ _ hsign hverify => (agrees_of_verify hsign hverify).2
  · exact fun _ _ _ _ _ hsign hverify => (agrees_of_verify hsign hverify).2
  · exact fun _ _ _ _ _ hsign hverify => agrees_of_verify hsign hverify
  · exact fun _ _ _ hsign => ⟨fun _ _ => refused_of_not_agrees hsign hdomain,
      fun _ _ => refused_of_not_agrees hsign id⟩
  · exact fun _ _ _ hsign => ⟨fun _ _ => refused_of_not_agrees hsign hdomain',
      fun _ _ => refused_of_not_agrees hsign id⟩
  · exact fun _ _ _ hsign => ⟨fun _ _ => refused_of_not_agrees hsign id,
      fun _ _ => refused_of_not_agrees hsign id⟩

/-- A request is signed, and the event and the reply of the same body are refused its
signature. -/
theorem signatures_bind_transparent :
    ∃ m signature, signRequest .transparent m (.object []) [] = some signature ∧
      verifyEvent .transparent m (.object []) signature [] = false ∧
      verifyReply .transparent ⟨m.requestId, m.resource, m.operation.name, true⟩ (.object [])
        signature [] = false := by
  let m : RequestMeta :=
    { requestId := str "request-1", orgId := str "acme", userId := str "ada", role := .owner,
      permissions := [str "project:read"], plan := str "free", resource := str "project",
      operation := .read, deadlineAt := 4000, issuedAt := 1000, traceparent := none }
  obtain ⟨signature, hsign⟩ := @Statement.sign_isSome .transparent
    (.envelope .request m (.object [])) (str "\x7b\x7d") (by decide) []
  have hrefused := (signatures_bind .transparent []).2.2.2.1 m (.object []) signature hsign
  exact ⟨m, signature, hsign, hrefused.1 _ _, hrefused.2 _ _⟩

end Guardrail
