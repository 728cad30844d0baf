import GuardrailPlatform.BusPermissions
import GuardrailPlatform.LineWrap
import GuardrailPlatform.TextFiles

/-!
# The server's configuration

`renderConfig` of `generate-auth.ts` writes the users of the bus, each with its
public key, its permissions and a comment, into one text.  The comment is wrapped
by a regular expression that matches at most 80 characters before a space; of a
longer word only the end is kept, and the cut can fall into a surrogate pair.

So the text is well formed just when no resource key holds a lone surrogate and
no long word of a comment is cut so (`renderConfig_wellFormed_iff`).
-/

namespace Guardrail

open Js LineWrap Words

/-! ## Users and their comments -/

/-- A `User`, with the comment that stands above it. -/
structure AuthUser extends BusUser where
  why : JSString

section

variable (reg : Registry)

def gatewayWhy : JSString :=
  str "The Next.js gateway. Calls every operation the registry declares and nothing else. " ++
    str "It never subscribes to an rpc subject, so it cannot answer for a service."

/-- What a service owns, answers, emits and consumes. -/
def serviceWhy (consumers : List ServiceName) (service : ServiceName) : JSString :=
  let owned := ownedRoutes reg service
  let serves := owned.filter fun route => route.transport == .rpc
  let emits := owned.filterMap (·.event)
  let consumed := consumedStreams reg consumers service
  let parts := [
    str "Owns " ++ joinComma (distinct (owned.map (·.resource))) ++ str ".",
    if serves.length = 0 then []
    else str "Answers " ++ numberText (.ofInt serves.length) ++ str " rpc subject(s).",
    if emits.length = 0 then []
    else str "Emits " ++ numberText (.ofInt emits.length) ++ str " evt subject(s).",
    if consumed.length = 0 then []
    else str "Consumes the " ++ (str " and ").intercalate consumed ++ str " stream."]
  (str " ").intercalate (parts.filter fun part => decide (part.length > 0))

def bootstrapWhy : JSString :=
  str "`pnpm nats:bootstrap`. Creates and updates the streams the registry declares. " ++
    str "It cannot publish a message onto any of them."

def observerWhy : JSString :=
  str "`make logs`. Read-only tap on the event stream for debugging. Events carry orgId, " ++
    str "userId and role, so this is a development credential - a deployment should not issue one."

def sysadminWhy : JSString :=
  str "`nats server report` and friends. In the system account, so it can read $SYS.> " ++
    str "and touch nothing in APP."

/-- `USERS`, with their comments. -/
def authUsers : Option (List AuthUser) := do
  let consumers ← eventConsumers reg
  return { gatewayUser reg with why := gatewayWhy } ::
    services.map (fun service =>
      { serviceUser reg consumers service with why := serviceWhy reg consumers service }) ++
    [{ bootstrapUser with why := bootstrapWhy }, { observerUser with why := observerWhy },
      { sysadminUser with why := sysadminWhy }]

/-- The users that are written are the ones whose permissions are derived: the
comments add nothing. -/
theorem authUsers_users : (authUsers reg).map (·.map (·.toBusUser)) = users reg := by
  rw [authUsers, users]
  cases eventConsumers reg with
  | none => rfl
  | some consumers => rfl

end

/-! ## Rendering -/

def quoted (subjects : List JSString) : JSString :=
  joinComma (subjects.map fun subject => str "\"" ++ subject ++ str "\"")

/-- The lines of `renderPermissions`. -/
def permissionLines (permissions : Permissions) : List JSString :=
  [str "        permissions: \x7b",
    if permissions.publish.length = 0 then str "          publish: \x7b deny: [\">\"] \x7d"
    else str "          publish: \x7b allow: [" ++ quoted permissions.publish ++ str "] \x7d",
    str "          subscribe: \x7b allow: [" ++ quoted permissions.subscribe ++ str "] \x7d"] ++
  (if permissions.allowResponses then
    [str "          allow_responses: \x7b max: 1, expires: \"30s\" \x7d"] else []) ++
  [str "        \x7d"]

def renderPermissions (permissions : Permissions) : JSString :=
  (str "\n").intercalate (permissionLines permissions)

/-- What `.` matches. -/
def isDot (u : UInt16) : Bool := !([10, 13, 0x2028, 0x2029] : List UInt16).contains u

/-- `why.match(/.{1,80}(\s|$)/g) ?? [why]`. -/
def wrapped (why : JSString) : List JSString :=
  match wrap isTrimmed isDot 80 why with
  | [] => [why]
  | lines => lines

def renderUser (user : AuthUser) (publicKey : JSString) : JSString :=
  let comment := (str "\n").intercalate
    ((wrapped user.why).map fun line => str "      # " ++ trim line)
  let body := [str "      \x7b", str "        nkey: \"" ++ publicKey ++ str "\""] ++
    (user.permissions.map renderPermissions).toList ++ [str "      \x7d"]
  comment ++ str "\n" ++ (str "\n").intercalate body

/-- `forAccount`, with the keys as a map. -/
def forAccount (users : List AuthUser) (publicKeys : List (JSString × JSString))
    (account : Account) : JSString :=
  (str "\n\n").intercalate ((users.filter fun user => user.account == account).map fun user =>
    renderUser user ((publicKeys.lookup user.name).getD []))

/-- The text before the users. -/
def configHead : List JSString := [
  str "# SOT: nats-accounts, nats-authorisation, bus-permissions",
  str "# GENERATED by infra/nats/generate-auth.ts - do not edit. Every subject below is computed",
  str "# from packages/registry/src/registry.ts; a permission written here by hand is a permission",
  str "# that will disagree with the routes defineService binds at boot.",
  str "#",
  str "# Regenerate:  pnpm exec tsx infra/nats/generate-auth.ts",
  str "# Verify:      pnpm exec tsx infra/nats/generate-auth.ts --check",
  str "#",
  str "# There is no anonymous user and no no_auth_user: a connection that cannot present one of",
  str "# the nkeys below is refused at the server, before the envelope HMAC is ever consulted.",
  [],
  str "accounts: \x7b",
  str "  # One trust domain, many least-privileged identities. Separate accounts per service would",
  str "  # need service exports/imports for every rpc subject and a JetStream domain each; the",
  str "  # boundary that actually matters here - who may publish a cmd, an evt or an rpc reply -",
  str "  # is enforced per user, which is where the registry's ownership already lives.",
  str "  APP: \x7b",
  str "    jetstream: enabled",
  [],
  str "    users: ["]

/-- The text between the users of the two accounts. -/
def configMiddle : List JSString :=
  [str "    ]", str "  \x7d", [], str "  SYS: \x7b", str "    users: ["]

/-- The text behind the users. -/
def configTail : List JSString :=
  [str "    ]", str "  \x7d", str "\x7d", [], str "system_account: SYS", []]

def renderConfig (users : List AuthUser) (publicKeys : List (JSString × JSString)) : JSString :=
  (str "\n").intercalate (configHead ++ [forAccount users publicKeys .app] ++ configMiddle ++
    [forAccount users publicKeys .sys] ++ configTail)

/-! ## Plain parts -/

/-- What a word is trimmed of is no half of a character. -/
theorem not_isSurrogate_of_isTrimmed {u : UInt16} (h : isTrimmed u = true) : ¬ IsSurrogate u := by
  have hlisted : IsPlain [9, 10, 11, 12, 13, 32, 160, 0x1680, 0x2028, 0x2029, 0x202F, 0x205F, 0x3000,
      0xFEFF] := by decide
  rw [isTrimmed, Bool.or_eq_true, decide_eq_true_eq, Bool.and_eq_true, decide_eq_true_eq,
    decide_eq_true_eq] at h
  rcases h with h | h
  · exact hlisted u h
  · intro hsurrogate
    obtain ⟨hlow, -⟩ := hsurrogate
    omega

/-- A unit that is not trimmed is one that a pattern's dot may match. -/
theorem isDot_of_not_isTrimmed (u : UInt16) (h : isTrimmed u = false) : isDot u = true := by
  have hends : ([10, 13, 0x2028, 0x2029] : List UInt16).all isTrimmed = true := by decide
  rw [isDot, Bool.not_eq_true', List.contains_eq_mem, decide_eq_false_iff_not]
  intro hmem
  rw [List.all_eq_true.mp hends u hmem] at h
  cases h

/-- Trimming takes away no half of a surrogate pair, so a text is well formed trimmed where
it was untrimmed. -/
theorem isWellFormed_trim (s : JSString) : isWellFormed (trim s) = isWellFormed s := by
  have hplain : ∀ t : JSString, (∀ u ∈ t, isTrimmed u = true) → IsPlain t := fun t ht u hu =>
    not_isSurrogate_of_isTrimmed (ht u hu)
  have hleft : isWellFormed (s.dropWhile isTrimmed) = isWellFormed s := by
    rw [← isWellFormed_plain_append (hplain (s.takeWhile isTrimmed) fun u hu =>
      List.mem_takeWhile_imp hu), List.takeWhile_append_dropWhile]
  have hright : ∀ t : JSString, isWellFormed (t.reverse.dropWhile isTrimmed).reverse =
      isWellFormed t := by
    intro t
    rw [← isWellFormed_append_plain _ (hplain (t.reverse.takeWhile isTrimmed).reverse fun u hu =>
      List.mem_takeWhile_imp (List.mem_reverse.mp hu)), ← List.reverse_append,
      List.takeWhile_append_dropWhile, List.reverse_reverse]
  rw [trim, hright, hleft]

/-! ## Which text is well formed -/

/-- No word of a comment is cut inside a surrogate pair. -/
def WrapsCleanly (why : JSString) : Prop :=
  ∀ word ∈ words (fun u => !isTrimmed u) why, 80 < word.length →
    isWellFormed (word.drop (word.length - 80)) = true

/-- Every line of a wrapped comment is well formed exactly where no break cuts a
character. -/
theorem wrapped_all_iff {why : JSString} (h : isWellFormed why = true) :
    (wrapped why).all isWellFormed = true ↔ WrapsCleanly why := by
  have hwrap := wrap_all_iff isDot_of_not_isTrimmed (by decide : 0 < 80) (by rfl)
    (fun a u b hu => isWellFormed_append_cons a (not_isSurrogate_of_isTrimmed hu) b) h
  rw [WrapsCleanly, ← hwrap, wrapped]
  cases wrap isTrimmed isDot 80 why with
  | nil => simp [h]
  | cons line lines => rfl

/-- Plain text around a text adds no lone surrogate and completes none. -/
theorem isWellFormed_between {a b : JSString} (ha : IsPlain a) (hb : IsPlain b) (text : JSString) :
    isWellFormed (a ++ text ++ b) = isWellFormed text := by
  rw [isWellFormed_append_plain _ hb, isWellFormed_plain_append ha]

/-- A list of quoted subjects is well formed where each subject is. -/
theorem isWellFormed_quoted (subjects : List JSString) :
    isWellFormed (quoted subjects) = subjects.all isWellFormed := by
  rw [quoted, joinComma, isWellFormed_join (by decide) (by decide), List.all_map]
  congr 1
  funext subject
  exact isWellFormed_between (isPlain_str (by decide)) (isPlain_str (by decide)) subject

/-- A rendered permission block is well formed where every subject in it is. -/
theorem isWellFormed_renderPermissions (permissions : Permissions) :
    isWellFormed (renderPermissions permissions) =
      (permissions.publish.all isWellFormed && permissions.subscribe.all isWellFormed) := by
  have hbrackets : ∀ (lead : JSString), IsPlain lead → ∀ subjects : List JSString,
      isWellFormed (lead ++ quoted subjects ++ str "] \x7d") = subjects.all isWellFormed := by
    intro lead hlead subjects
    rw [isWellFormed_between hlead (isPlain_str (by decide)), isWellFormed_quoted]
  have hpublish : isWellFormed
      (if permissions.publish.length = 0 then str "          publish: \x7b deny: [\">\"] \x7d"
        else str "          publish: \x7b allow: [" ++ quoted permissions.publish ++ str "] \x7d") =
      permissions.publish.all isWellFormed := by
    by_cases hempty : permissions.publish.length = 0
    · rw [if_pos hempty, List.eq_nil_of_length_eq_zero hempty, List.all_nil]
      exact isWellFormed_plain (isPlain_str (by decide))
    · rw [if_neg hempty, hbrackets _ (isPlain_str (by decide))]
  have hresponses : (if permissions.allowResponses then
      [str "          allow_responses: \x7b max: 1, expires: \"30s\" \x7d"] else []).all
        isWellFormed = true := by
    split
    · have hexpires : isWellFormed
          (str "          allow_responses: \x7b max: 1, expires: \"30s\" \x7d") = true :=
        isWellFormed_plain (isPlain_str (by decide))
      rw [List.all_cons, hexpires]
      rfl
    · rfl
  have hopen : isWellFormed (str "        permissions: \x7b") = true :=
    isWellFormed_plain (isPlain_str (by decide))
  have hclose : isWellFormed (str "        \x7d") = true :=
    isWellFormed_plain (isPlain_str (by decide))
  rw [renderPermissions, isWellFormed_join (by decide) (by decide), permissionLines,
    List.all_append, List.all_append, hresponses, List.all_cons, List.all_cons, List.all_cons,
    hbrackets _ (isPlain_str (by decide)), hpublish]
  simp [hopen, hclose]

/-- What a user's entry shows of the registry. -/
def AuthUser.IsClean (user : AuthUser) : Prop :=
  (wrapped user.why).all isWellFormed = true ∧
    ∀ permissions, user.permissions = some permissions →
      permissions.publish.all isWellFormed = true ∧ permissions.subscribe.all isWellFormed = true

/-- A rendered user is well formed where its subjects are and its comment wraps
cleanly. -/
theorem isWellFormed_renderUser (user : AuthUser) {publicKey : JSString} (hkey : IsPlain publicKey) :
    isWellFormed (renderUser user publicKey) = true ↔ user.IsClean := by
  have hcomment : isWellFormed ((str "\n").intercalate
      ((wrapped user.why).map fun line => str "      # " ++ trim line)) =
        (wrapped user.why).all isWellFormed := by
    rw [isWellFormed_join (by decide) (by decide), List.all_map]
    congr 1
    funext line
    rw [Function.comp_apply, isWellFormed_plain_append (isPlain_str (by decide)), isWellFormed_trim]
  have hline : isWellFormed (str "        nkey: \"" ++ publicKey ++ str "\"") = true := by
    rw [isWellFormed_between (isPlain_str (by decide)) (isPlain_str (by decide)),
      isWellFormed_plain hkey]
  have hopen : isWellFormed (str "      \x7b") = true :=
    isWellFormed_plain (isPlain_str (by decide))
  have hclose : isWellFormed (str "      \x7d") = true :=
    isWellFormed_plain (isPlain_str (by decide))
  have hbody : ∀ lines : List JSString,
      ([str "      \x7b", str "        nkey: \"" ++ publicKey ++ str "\""] ++ lines ++
        [str "      \x7d"]).all isWellFormed = lines.all isWellFormed := by
    intro lines
    rw [List.all_append, List.all_append, List.all_cons, List.all_cons, List.all_cons, hopen, hline,
      hclose]
    simp
  rw [renderUser, List.append_assoc, isWellFormed_glue _ (by decide) (by decide), hcomment,
    isWellFormed_join (by decide) (by decide), hbody, AuthUser.IsClean, Bool.and_eq_true]
  cases user.permissions with
  | none => simp
  | some permissions => simp [isWellFormed_renderPermissions]

/-- An account's block is well formed where each of its users is. -/
theorem isWellFormed_forAccount (users : List AuthUser) {publicKeys : List (JSString × JSString)}
    (hkeys : ∀ name, IsPlain ((publicKeys.lookup name).getD [])) (account : Account) :
    isWellFormed (forAccount users publicKeys account) = true ↔
      ∀ user ∈ users, user.account = account → user.IsClean := by
  rw [forAccount, isWellFormed_join (by decide) (by decide), List.all_map, List.all_eq_true]
  simp only [List.mem_filter, beq_iff_eq, and_imp, Function.comp_apply,
    isWellFormed_renderUser _ (hkeys _)]

theorem fixedLines_printable :
    ∀ line ∈ configHead ++ configMiddle ++ configTail, line.all printable = true := by
  repeat
    refine List.forall_mem_cons.mpr ⟨?_, ?_⟩
    · first
      | with_reducible exact List.all_nil
      | exact printable_str (by decide)
  exact List.forall_mem_nil _

/-- **The configuration** is well formed exactly when the texts of every entry are, the keys
being plain. -/
theorem isWellFormed_renderConfig (users : List AuthUser) {publicKeys : List (JSString × JSString)}
    (hkeys : ∀ name, IsPlain ((publicKeys.lookup name).getD [])) :
    isWellFormed (renderConfig users publicKeys) = true ↔ ∀ user ∈ users, user.IsClean := by
  have hfixed : (configHead ++ configMiddle ++ configTail).all isWellFormed = true :=
    List.all_eq_true.mpr fun line hline =>
      isWellFormed_plain (isPlain_of_printable (fixedLines_printable line hline))
  rw [List.all_append, List.all_append, Bool.and_eq_true, Bool.and_eq_true] at hfixed
  obtain ⟨⟨hhead, hmiddle⟩, htail⟩ := hfixed
  rw [renderConfig, isWellFormed_join (by decide) (by decide), List.all_append, List.all_append,
    List.all_append, List.all_append, hhead, hmiddle, htail, List.all_cons, List.all_cons]
  simp only [List.all_nil, Bool.true_and, Bool.and_true, Bool.and_eq_true,
    isWellFormed_forAccount users hkeys]
  constructor
  · intro h user huser
    cases haccount : user.account with
    | app => exact h.1 user huser haccount
    | sys => exact h.2 user huser haccount
  · exact fun h => ⟨fun user huser _ => h user huser, fun user huser _ => h user huser⟩

/-! ## What the entries are made of -/

/-- A property that printable text has, and text put together from parts that have it. -/
structure Composes (P : JSString → Prop) : Prop where
  fixed : ∀ {text : JSString}, text.all printable = true → P text
  between : ∀ {a text b : JSString}, a.all printable = true → P text → b.all printable = true →
    P (a ++ text ++ b)
  join : ∀ {glue : JSString} {parts : List JSString}, glue.all printable = true → glue ≠ [] →
    (∀ part ∈ parts, P part) → P (glue.intercalate parts)

/-- Well-formedness is a property that the generated subjects inherit from the
keys. -/
theorem composes_wellFormed : Composes fun text => isWellFormed text = true where
  fixed h := isWellFormed_plain (isPlain_of_printable h)
  between ha h hb := by
    rw [isWellFormed_between (isPlain_of_printable ha) (isPlain_of_printable hb), h]
  join hglue hne h := by
    rw [isWellFormed_join (isPlain_of_printable hglue) hne]
    exact List.all_eq_true.mpr h

theorem composes_units {Q : UInt16 → Prop} (hQ : ∀ u, printable u = true → Q u) :
    Composes fun text => ∀ u ∈ text, Q u where
  fixed h u hu := hQ u (List.all_eq_true.mp h u hu)
  between ha h hb u hu := by
    rcases List.mem_append.mp hu with hu | hu
    · rcases List.mem_append.mp hu with hu | hu
      · exact hQ u (List.all_eq_true.mp ha u hu)
      · exact h u hu
    · exact hQ u (List.all_eq_true.mp hb u hu)
  join := by
    intro glue parts hglue _ h
    induction parts with
    | nil => exact fun u hu => absurd hu List.not_mem_nil
    | cons part parts ih =>
        have hpart := h part List.mem_cons_self
        have hrest := ih fun other hother => h other (List.mem_cons_of_mem _ hother)
        by_cases hlast : parts = []
        · rw [hlast, List.intercalate_singleton]
          exact hpart
        · rw [List.intercalate_cons_of_ne_nil hlast]
          intro u hu
          rcases List.mem_append.mp hu with hu | hu
          · rcases List.mem_append.mp hu with hu | hu
            · exact hpart u hu
            · exact hQ u (List.all_eq_true.mp hglue u hu)
          · exact hrest u hu

/-- Plainness is a property that the generated subjects inherit from the keys. -/
theorem composes_plain : Composes IsPlain := by
  apply composes_units
  intro u hu
  have hletter : ([u] : JSString).all printable = true := by
    rw [List.all_cons, hu]
    rfl
  exact isPlain_of_printable hletter u List.mem_cons_self

/-- The user's comment and subjects have the property. -/
def AuthUser.Satisfies (P : JSString → Prop) (user : AuthUser) : Prop :=
  P user.why ∧ ∀ permissions, user.permissions = some permissions →
    (∀ subject ∈ permissions.publish, P subject) ∧ ∀ subject ∈ permissions.subscribe, P subject

/-- A user all of whose texts have a property has every weaker one. -/
theorem AuthUser.Satisfies.mono {P Q : JSString → Prop} (h : ∀ text, P text → Q text)
    {user : AuthUser} (huser : user.Satisfies P) : user.Satisfies Q := by
  obtain ⟨hwhy, hpermissions⟩ := huser
  refine ⟨h _ hwhy, fun permissions hsome => ?_⟩
  obtain ⟨hpublish, hsubscribe⟩ := hpermissions permissions hsome
  exact ⟨fun subject hsubject => h _ (hpublish subject hsubject),
    fun subject hsubject => h _ (hsubscribe subject hsubject)⟩

theorem printable_append {a b : JSString} (ha : a.all printable = true)
    (hb : b.all printable = true) : (a ++ b).all printable = true := by
  rw [List.all_append, ha, hb, Bool.and_true]

theorem printable_numberText (x : Finite) : (numberText x).all printable = true := by
  apply List.all_eq_true.mpr
  intro u hu
  rcases numberText_units x u hu with hdigit | rfl | rfl | rfl | rfl
  · obtain ⟨hlow, hhigh⟩ := hdigit
    rw [printable, Bool.and_eq_true, decide_eq_true_eq, decide_eq_true_eq]
    omega
  all_goals decide

/-- The last token of a subject, a dot and an operation's name, has printable characters
only. -/
theorem printable_operation (operation : Operation) :
    (str "." ++ operation.name).all printable = true := by
  cases operation <;> decide

/-- A service's inbox subject is printable, since the service's name is one of a few
constants. -/
theorem printable_inbox (service : ServiceName) : (inbox service.name).all printable = true := by
  cases service <;> decide

variable {reg : Registry}

/-- The JetStream subjects a service uses are made of constants, so they are
printable. -/
theorem printable_jetstreamApi {consumers : List ServiceName} {service : ServiceName} :
    ∀ subject ∈ jetstreamApi reg consumers service, subject.all printable = true := by
  have hapi : ∀ subject ∈ jsApiInfo ::
      [str "CMD", str "EVT"].flatMap consumerApi ++ [str "$JS.ACK.>"],
      subject.all printable = true := by
    decide
  exact fun subject hsubject => hapi subject (mem_jetstreamApi hsubject)

/-- The gateway's comment is a constant of the generator, and every character of it is
printable. -/
theorem gatewayWhy_printable : gatewayWhy.all printable = true :=
  printable_append (printable_str (by decide)) (printable_str (by decide))

theorem fixed_printable :
    ∀ user ∈ [({ bootstrapUser with why := bootstrapWhy } : AuthUser),
      { observerUser with why := observerWhy }, { sysadminUser with why := sysadminWhy }],
      user.Satisfies fun text => text.all printable = true := by
  have hstreams : ∀ subject ∈ jsApiInfo :: (streams.map (·.name)).flatMap streamApi,
      subject.all printable = true := by
    decide
  have hinbox : ∀ subject ∈ [inbox (str "bootstrap")], subject.all printable = true := by decide
  have hevents : ∀ subject ∈ [str "evt.>", inbox (str "observer")],
      subject.all printable = true := by
    decide
  intro user huser
  simp only [List.mem_cons, List.not_mem_nil, or_false] at huser
  rcases huser with rfl | rfl | rfl
  · refine ⟨printable_append (printable_str (by decide)) (printable_str (by decide)),
      fun permissions hpermissions => ?_⟩
    obtain rfl := Option.some.inj hpermissions
    exact ⟨fun subject hsubject => hstreams subject (mem_sorted.mp hsubject), hinbox⟩
  · refine ⟨printable_append (printable_str (by decide)) (printable_str (by decide)),
      fun permissions hpermissions => ?_⟩
    obtain rfl := Option.some.inj hpermissions
    exact ⟨fun subject hsubject => absurd hsubject List.not_mem_nil, hevents⟩
  · refine ⟨printable_append (printable_str (by decide)) (printable_str (by decide)),
      fun permissions hpermissions => ?_⟩
    cases hpermissions

/-- A route that a service owns is one of the routes the registry derives. -/
theorem mem_ownedRoutes {service : ServiceName} {route : SubjectRoute}
    (h : route ∈ ownedRoutes reg service) : route ∈ reg.routes :=
  List.mem_of_mem_filter h

section

variable {P : JSString → Prop} (hP : Composes P) (hnames : ∀ route ∈ reg.routes, P route.resource)

include hP

/-- A subject inherits a property from the resource key in its middle. -/
theorem Composes.name {head : JSString} (hhead : head.all printable = true) {resource : ResourceKey}
    (h : P resource) (operation : Operation) :
    P (head ++ resource ++ str "." ++ operation.name) := by
  rw [List.append_assoc]
  exact hP.between hhead h (printable_operation operation)

include hnames

/-- A route's subject and its event have any property that composes from that of its
resource's key. -/
theorem Composes.of_route {route : SubjectRoute} (h : route ∈ reg.routes) :
    P route.subject ∧ ∀ event, route.event = some event → P event := by
  have hresource := hnames route h
  obtain ⟨resource, d, operation, rule, -, -, rfl⟩ := Registry.mem_routes.mp h
  constructor
  · rw [Registry.routeOf]
    cases rule.transport with
    | rpc => exact hP.name (printable_str (by decide)) hresource operation
    | command => exact hP.name (printable_str (by decide)) hresource operation
  · intro event hevent
    simp only [Registry.routeOf] at hevent
    split at hevent
    · obtain rfl := Option.some.inj hevent
      exact hP.name (printable_str (by decide)) hresource operation
    · cases hevent

/-- A service's comment names its resources, and inherits a property from their
keys. -/
theorem Composes.of_serviceWhy (consumers : List ServiceName) (service : ServiceName) :
    P (serviceWhy reg consumers service) := by
  have howned : P (joinComma (distinct ((ownedRoutes reg service).map (·.resource)))) := by
    apply hP.join (by decide) (by decide)
    intro resource hresource
    obtain ⟨route, hroute, rfl⟩ := List.mem_map.mp (mem_distinct.mp hresource)
    exact hnames route (mem_ownedRoutes hroute)
  have hconsumed : P ((str " and ").intercalate (consumedStreams reg consumers service)) := by
    have hstreams : ∀ stream ∈ [str "CMD", str "EVT"], stream.all printable = true := by decide
    apply hP.join (by decide) (by decide)
    exact fun stream hstream => hP.fixed (hstreams stream (mem_consumedStreams hstream))
  have hcount : ∀ (n : ℕ) (unit : JSString), unit.all printable = true → ∀ verb : JSString,
      verb.all printable = true →
      P (if n = 0 then [] else verb ++ numberText (.ofInt n) ++ unit) := by
    intro n unit hunit verb hverb
    by_cases hn : n = 0
    · rw [if_pos hn]
      exact hP.fixed rfl
    · rw [if_neg hn]
      exact hP.between hverb (hP.fixed (printable_numberText _)) hunit
  rw [serviceWhy]
  apply hP.join (by decide) (by decide)
  intro part hpart
  have hlisted := List.mem_of_mem_filter hpart
  simp only [List.mem_cons, List.not_mem_nil, or_false] at hlisted
  rcases hlisted with rfl | rfl | rfl | rfl
  · exact hP.between (printable_str (by decide)) howned (printable_str (by decide))
  · exact hcount _ _ (printable_str (by decide)) _ (printable_str (by decide))
  · exact hcount _ _ (printable_str (by decide)) _ (printable_str (by decide))
  · split
    · exact hP.fixed rfl
    · exact hP.between (printable_str (by decide)) hconsumed (printable_str (by decide))

/-- The gateway's user inherits from the registry's keys any property that composing
subjects keeps. -/
theorem Composes.of_gateway :
    ({ gatewayUser reg with why := gatewayWhy } : AuthUser).Satisfies P := by
  refine ⟨hP.fixed gatewayWhy_printable, fun permissions hpermissions => ?_⟩
  obtain rfl := Option.some.inj hpermissions
  constructor
  · intro subject hsubject
    obtain ⟨route, hroute, rfl⟩ := List.mem_map.mp (mem_sorted.mp hsubject)
    exact (hP.of_route hnames hroute).1
  · intro subject hsubject
    rw [List.mem_singleton.mp hsubject]
    exact hP.fixed (by decide)

/-- A service's user inherits from the registry's keys any property that composing subjects
keeps. -/
theorem Composes.of_service (consumers : List ServiceName) (service : ServiceName) :
    ({ serviceUser reg consumers service with why := serviceWhy reg consumers service } :
      AuthUser).Satisfies P := by
  refine ⟨hP.of_serviceWhy hnames consumers service, fun permissions hpermissions => ?_⟩
  obtain ⟨responses, hservice⟩ := @serviceUser_permissions reg consumers service
  obtain rfl := Option.some.inj (hservice.symm.trans hpermissions)
  constructor
  · intro subject hsubject
    rcases List.mem_append.mp (mem_sorted.mp hsubject) with hevent | hapi
    · obtain ⟨route, hroute, hevent⟩ := List.mem_filterMap.mp hevent
      exact (hP.of_route hnames (mem_ownedRoutes hroute)).2 subject hevent
    · exact hP.fixed (printable_jetstreamApi subject hapi)
  · intro subject hsubject
    rcases List.mem_append.mp (mem_sorted.mp hsubject) with hserves | hinbox
    · obtain ⟨route, hroute, rfl⟩ := List.mem_map.mp hserves
      exact (hP.of_route hnames (mem_ownedRoutes (List.mem_of_mem_filter hroute))).1
    · rw [List.mem_singleton.mp hinbox]
      exact hP.fixed (printable_inbox service)

/-- **The entries** have every property that composes and that the resources' names have. -/
theorem Composes.of_authUsers {list : List AuthUser} (h : authUsers reg = some list) :
    ∀ user ∈ list, user.Satisfies P := by
  obtain ⟨consumers, -, hlist⟩ := Option.bind_eq_some_iff.mp h
  obtain rfl := Option.some.inj hlist
  intro user huser
  rcases List.mem_append.mp huser with huser | huser
  · rcases List.mem_cons.mp huser with rfl | huser
    · exact hP.of_gateway hnames
    · obtain ⟨service, -, rfl⟩ := List.mem_map.mp huser
      exact hP.of_service hnames consumers service
  · exact (fixed_printable user huser).mono fun text => hP.fixed

end

/-! ## Which registries it is well formed for -/

theorem wrapsCleanly_plain {why : JSString} (h : IsPlain why) : WrapsCleanly why := by
  intro word hword _
  apply isWellFormed_plain
  intro u hu
  have hflat : u ∈ (words (fun v => !isTrimmed v) why).flatten :=
    List.mem_flatten_of_mem hword (List.mem_of_mem_drop hu)
  rw [words_flatten] at hflat
  exact h u (List.mem_of_mem_filter hflat)

/-- The resources' names, as the comments and subjects show them. -/
def Registry.NamesWellFormed (reg : Registry) : Prop :=
  ∀ route ∈ reg.routes, isWellFormed route.resource = true

/-- A subject is well formed exactly where the resource key in it is. -/
theorem isWellFormed_name {head : JSString} (hhead : IsPlain head) (resource : ResourceKey)
    (operation : Operation) :
    isWellFormed (head ++ resource ++ str "." ++ operation.name) = isWellFormed resource := by
  rw [List.append_assoc]
  exact isWellFormed_between hhead (isPlain_of_printable (printable_operation operation)) resource

theorem isWellFormed_subject {route : SubjectRoute} (h : route ∈ reg.routes) :
    isWellFormed route.subject = isWellFormed route.resource := by
  obtain ⟨resource, d, operation, rule, -, -, rfl⟩ := Registry.mem_routes.mp h
  rw [Registry.routeOf]
  cases rule.transport with
  | rpc => exact isWellFormed_name (isPlain_str (by decide)) resource operation
  | command => exact isWellFormed_name (isPlain_str (by decide)) resource operation

theorem names_of_gateway
    (h : ({ gatewayUser reg with why := gatewayWhy } : AuthUser).IsClean) : reg.NamesWellFormed := by
  intro route hroute
  have hpublish := List.all_eq_true.mp (h.2 _ rfl).1
  rw [← isWellFormed_subject hroute]
  exact hpublish _ (mem_sorted.mpr (List.mem_map_of_mem hroute))

/-- Where every text of a user is well formed, only the wrapping of its comment
can go wrong. -/
theorem AuthUser.isClean_iff {user : AuthUser}
    (h : user.Satisfies fun text => isWellFormed text = true) :
    user.IsClean ↔ WrapsCleanly user.why := by
  obtain ⟨hwhy, hpermissions⟩ := h
  rw [← wrapped_all_iff hwhy]
  apply and_iff_left
  intro permissions hsome
  obtain ⟨hpublish, hsubscribe⟩ := hpermissions permissions hsome
  exact ⟨List.all_eq_true.mpr hpublish, List.all_eq_true.mpr hsubscribe⟩

/-- No name holds a lone surrogate, and no comment is cut inside a pair. -/
structure Registry.WritesCleanly (reg : Registry) : Prop where
  names : reg.NamesWellFormed
  comments : ∀ consumers, eventConsumers reg = some consumers →
    ∀ service : ServiceName, WrapsCleanly (serviceWhy reg consumers service)

/-- All users are written cleanly exactly where the registry's keys and comments
allow it. -/
theorem authUsers_clean_iff {list : List AuthUser} (h : authUsers reg = some list) :
    (∀ user ∈ list, user.IsClean) ↔ reg.WritesCleanly := by
  obtain ⟨consumers, hconsumers, hlist⟩ := Option.bind_eq_some_iff.mp h
  obtain rfl := Option.some.inj hlist
  constructor
  · intro hclean
    have hnames := names_of_gateway (hclean _ List.mem_cons_self)
    refine ⟨hnames, fun consumers' hconsumers' service => ?_⟩
    obtain rfl := Option.some.inj (hconsumers.symm.trans hconsumers')
    apply (AuthUser.isClean_iff (composes_wellFormed.of_service hnames consumers service)).mp
    apply hclean
    have hdeclared : service ∈ services := by cases service <;> decide
    exact List.mem_append_left _ (List.mem_cons_of_mem _ (List.mem_map_of_mem hdeclared))
  · intro hreg user huser
    apply (AuthUser.isClean_iff (composes_wellFormed.of_authUsers hreg.names h user huser)).mpr
    rcases List.mem_append.mp huser with huser | huser
    · rcases List.mem_cons.mp huser with rfl | huser
      · exact wrapsCleanly_plain (isPlain_of_printable gatewayWhy_printable)
      · obtain ⟨service, -, rfl⟩ := List.mem_map.mp huser
        exact hreg.comments consumers hconsumers service
    · exact wrapsCleanly_plain (isPlain_of_printable (fixed_printable user huser).1)

/-- **Which registries write cleanly**: those whose configuration, with whatever keys, is well
formed. -/
theorem renderConfig_wellFormed_iff {list : List AuthUser} (h : authUsers reg = some list)
    {publicKeys : List (JSString × JSString)}
    (hkeys : ∀ name, IsPlain ((publicKeys.lookup name).getD [])) :
    isWellFormed (renderConfig list publicKeys) = true ↔ reg.WritesCleanly := by
  rw [isWellFormed_renderConfig list hkeys, authUsers_clean_iff h]

theorem writesCleanly_of_plain (hnames : ∀ route ∈ reg.routes, IsPlain route.resource) :
    reg.WritesCleanly where
  names route hroute := isWellFormed_plain (hnames route hroute)
  comments consumers _ service :=
    wrapsCleanly_plain (composes_plain.of_serviceWhy hnames consumers service)

end Guardrail
