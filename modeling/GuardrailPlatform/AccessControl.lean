import GuardrailPlatform.Gateway
import GuardrailPlatform.RegistryData

/-!
# Permissions, three times over

One question, may this role perform this operation, is answered by a rank
comparison and a permission list at the gateway, by a list membership in the
service, and by the statements of the roles handed to Better Auth.  This file
models the third, `access.ts`, and proves that the answers are one answer.

Better Auth is what the module imports: its own statements, the statements its
own roles hold, and the two calls the module makes.
-/

namespace Guardrail

open Js

/-! ## Permission strings -/

/-- No operation's name holds the colon that joins a resource and its operation in a
permission. -/
theorem Operation.name_noColon (operation : Operation) : 58 ∉ operation.name := by
  cases operation <;> decide

/-- The separator of a permission is one code unit, so a key without it cannot be cut
elsewhere. -/
theorem str_colon : str ":" = [58] := by decide

/-- The last colon of a permission separates its operation from its resource. -/
theorem append_colon_injective {r r' o o' : JSString} (ho : 58 ∉ o) (ho' : 58 ∉ o')
    (h : r ++ str ":" ++ o = r' ++ str ":" ++ o') : r = r' ∧ o = o' := by
  have hsplit : ∀ {x y : JSString}, 58 ∉ y → (x ++ str ":" ++ y).reverse.takeWhile (· != 58) =
      y.reverse := by
    intro x y hy
    have hkeep : ∀ u ∈ y.reverse, (u != 58) = true := by
      intro u hu
      have hne : u ≠ 58 := fun heq => hy (heq ▸ List.mem_reverse.mp hu)
      simpa using hne
    rw [str_colon, List.append_assoc, List.reverse_append, List.reverse_append, List.append_assoc,
      List.takeWhile_append_of_pos hkeep]
    simp
  have hop : o = o' := by
    have hrev := congrArg (fun s => s.reverse.takeWhile (· != 58)) h
    simp only [hsplit ho, hsplit ho'] at hrev
    exact List.reverse_injective hrev
  subst hop
  exact ⟨by simpa using h, rfl⟩

/-- A permission string names one resource and one operation, whatever the keys. -/
theorem toPermission_injective {resource resource' : ResourceKey} {operation operation' : Operation}
    (h : toPermission resource operation = toPermission resource' operation') :
    resource = resource' ∧ operation = operation' := by
  obtain ⟨hresource, hname⟩ :=
    append_colon_injective operation.name_noColon operation'.name_noColon h
  exact ⟨hresource, Operation.name_injective hname⟩

/-- A role holds a permission exactly where its rank reaches the declared one. -/
theorem can_permissionsForRole {reg : Registry} {role : OrgRole} {resource : ResourceKey}
    {operation : Operation} {rule : OperationRule}
    (hrule : reg.ruleFor resource operation = some rule) :
    can (reg.permissionsForRole role) resource operation = true ↔
      roleAtLeast role rule.minRole = true := by
  rw [can_iff, Registry.mem_permissionsForRole]
  constructor
  · intro h
    obtain ⟨resource', operation', rule', hrule', hrole, hsame⟩ := h
    obtain ⟨rfl, rfl⟩ := toPermission_injective hsame
    obtain rfl := Option.some.inj (hrule.symm.trans hrule')
    exact hrole
  · intro hrole
    exact ⟨resource, operation, rule, hrule, hrole, rfl⟩

/-- What a role may do, a higher role may: the roles are compared by one rank, whatever is
required. -/
theorem roleAtLeast_trans {higher lower required : OrgRole} (h : roleRank lower ≤ roleRank higher)
    (hlower : roleAtLeast lower required = true) : roleAtLeast higher required = true :=
  decide_eq_true ((of_decide_eq_true hlower).trans h)

/-- A higher role holds every permission that a lower one holds, in any registry. -/
theorem permissionsForRole_mono (reg : Registry) {higher lower : OrgRole}
    (h : roleRank lower ≤ roleRank higher) :
    reg.permissionsForRole lower ⊆ reg.permissionsForRole higher := by
  intro permission hheld
  obtain ⟨resource, operation, rule, hrule, hrole, hsame⟩ :=
    Registry.mem_permissionsForRole.mp hheld
  exact Registry.mem_permissionsForRole.mpr
    ⟨resource, operation, rule, hrule, roleAtLeast_trans h hrole, hsame⟩

/-! ## Statements -/

/-- A statement object: the actions allowed under each key. -/
abbrev Statements := List (JSString × List JSString)

/-- `object[key] = actions`. -/
def assign (statements : Statements) (key : JSString) (actions : List JSString) : Statements :=
  if ∃ entry ∈ statements, entry.1 = key then
    statements.map fun entry => if entry.1 = key then (key, actions) else entry
  else statements ++ [(key, actions)]

/-- Assigning under a key that is there changes its actions in place. -/
theorem assign_of_mem {statements : Statements} {key : JSString} (actions : List JSString)
    (h : key ∈ statements.map Prod.fst) :
    assign statements key actions =
      statements.map fun entry => if entry.1 = key then (key, actions) else entry :=
  if_pos (List.mem_map.mp h)

/-- Assigning under a key that the object does not have yet puts the entry at the end. -/
theorem assign_of_notMem {statements : Statements} {key : JSString} (actions : List JSString)
    (h : key ∉ statements.map Prod.fst) :
    assign statements key actions = statements ++ [(key, actions)] :=
  if_neg fun hentry => h (List.mem_map.mpr hentry)

/-- `{ ...base, ...later }`. -/
def spread (base later : Statements) : Statements :=
  later.foldl (fun statements entry => assign statements entry.1 entry.2) base

/-- An assignment in place changes what its key leads to, and no other. -/
theorem lookup_map_assigned (statements : Statements) (key : JSString) (actions : List JSString)
    (k : JSString) :
    (statements.map fun entry => if entry.1 = key then (key, actions) else entry).lookup k =
      if k = key ∧ key ∈ statements.map Prod.fst then some actions else statements.lookup k := by
  induction statements with
  | nil => simp
  | cons entry statements ih =>
      obtain ⟨e, as⟩ := entry
      by_cases hkey : e = key
      · subst hkey
        by_cases hk : k = e
        · simp [hk]
        · simp [List.lookup_cons, hk, beq_eq_false_iff_ne.mpr hk, ih]
      · by_cases hk : k = e
        · subst hk
          simp [hkey]
        · have hkey' : key ∈ ((e, as) :: statements).map Prod.fst ↔
              key ∈ statements.map Prod.fst := by
            simpa using fun h : key = e => absurd h.symm hkey
          rw [List.map_cons, if_neg hkey, List.lookup_cons, List.lookup_cons, ih]
          simp only [beq_eq_false_iff_ne.mpr hk, hkey']

/-- What is assigned under a key is read back there, and every other key reads as before. -/
@[simp] theorem lookup_assign (statements : Statements) (key : JSString) (actions : List JSString)
    (k : JSString) :
    (assign statements key actions).lookup k =
      if k = key then some actions else statements.lookup k := by
  by_cases hmem : key ∈ statements.map Prod.fst
  · rw [assign_of_mem _ hmem, lookup_map_assigned]
    simp [hmem]
  · rw [assign_of_notMem _ hmem, List.lookup_append]
    by_cases hk : k = key
    · subst hk
      have hnone : statements.lookup k = none := by
        rw [List.lookup_eq_none_iff]
        intro entry hentry
        have hne : entry.1 ≠ k := fun h => hmem (h ▸ List.mem_map_of_mem hentry)
        simpa using fun h : k = entry.1 => hne h.symm
      simp [hnone]
    · simp [List.lookup_cons, hk, beq_eq_false_iff_ne.mpr hk]

/-- An assignment adds its key at the end, if it was not there. -/
theorem keys_assign (statements : Statements) (key : JSString) (actions : List JSString) :
    (assign statements key actions).map Prod.fst =
      if key ∈ statements.map Prod.fst then statements.map Prod.fst
      else statements.map Prod.fst ++ [key] := by
  by_cases hmem : key ∈ statements.map Prod.fst
  · rw [assign_of_mem _ hmem, if_pos hmem, List.map_map]
    apply List.map_congr_left
    intro entry _
    by_cases hkey : entry.1 = key
    · simp [hkey]
    · simp [hkey]
  · rw [assign_of_notMem _ hmem, if_neg hmem, List.map_append]
    rfl

/-- Assigning to an object whose keys are distinct leaves them distinct: a key that is there
is replaced. -/
theorem nodup_assign {statements : Statements} (h : (statements.map Prod.fst).Nodup)
    (key : JSString) (actions : List JSString) :
    ((assign statements key actions).map Prod.fst).Nodup := by
  rw [keys_assign]
  by_cases hmem : key ∈ statements.map Prod.fst
  · rwa [if_pos hmem]
  · rw [if_neg hmem]
    exact List.nodup_append.mpr ⟨h, List.nodup_singleton key, fun a ha b hb hab =>
      hmem (List.mem_singleton.mp hb ▸ hab ▸ ha)⟩

/-- A spread answers with the later object's value where that has the key, and with the
earlier one's elsewhere. -/
theorem lookup_spread (base : Statements) {later : Statements} (h : (later.map Prod.fst).Nodup)
    (k : JSString) : (spread base later).lookup k = (later.lookup k).or (base.lookup k) := by
  unfold spread
  induction later generalizing base with
  | nil => rfl
  | cons entry later ih =>
      obtain ⟨e, actions⟩ := entry
      rw [List.map_cons, List.nodup_cons] at h
      rw [List.foldl_cons, ih _ h.2, lookup_assign, List.lookup_cons]
      by_cases hk : k = e
      · subst hk
        have hnone : later.lookup k = none := by
          rw [List.lookup_eq_none_iff]
          intro entry hentry
          have hne : k ≠ entry.1 := fun heq => h.1 (List.mem_map.mpr ⟨entry, hentry, heq.symm⟩)
          simpa using hne
        simp [hnone]
      · rw [if_neg hk, beq_eq_false_iff_ne.mpr hk]

/-! ## `access.ts` -/

/-- What the module imports from Better Auth: `defaultStatements`, the
statements of `memberAc`, `adminAc` and `ownerAc`, the access control's
`newRole`, and a role's `authorize` for one action under one key. -/
structure BetterAuth where
  Role : Type
  defaultStatements : Statements
  baseStatements : OrgRole → Statements
  newRole : Statements → Statements → Role
  authorize : Role → JSString → JSString → Bool

/-- What Better Auth documents about these: its roles speak of the keys of its
default statements, and a role allows the actions its statements list. -/
structure BetterAuth.Documented (auth : BetterAuth) : Prop where
  declared : ∀ role, ∀ key ∈ (auth.baseStatements role).map Prod.fst,
    key ∈ auth.defaultStatements.map Prod.fst
  authorizes : ∀ statement statements key action,
    auth.authorize (auth.newRole statement statements) key action = true ↔
      ∃ actions, statements.lookup key = some actions ∧ action ∈ actions

/-- The namespace registry resources occupy inside the statement object. -/
def statementKey (resource : ResourceKey) : JSString := str "res." ++ resource

section

variable (auth : BetterAuth) (reg : Registry)

/-- `resourceStatements`, by `Object.fromEntries`. -/
def resourceStatements : Statements :=
  spread [] (reg.resourceKeys.map fun resource =>
    (statementKey resource, (reg.operationsOf resource).map Operation.name))

/-- The statement the access control is created with. -/
def statement : Statements := spread auth.defaultStatements (resourceStatements reg)

/-- The registry's keys that Better Auth already uses. -/
def shadowed : List JSString :=
  (reg.resourceKeys.map statementKey).filter fun key =>
    (auth.defaultStatements.map Prod.fst).any (· == key)

/-- The operations of a resource a role holds. -/
def allowedOperations (role : OrgRole) (resource : ResourceKey) : List Operation :=
  (reg.operationsOf resource).filter fun operation =>
    (reg.permissionsForRole role).contains (toPermission resource operation)

/-- `grants`, after the loop has seen these resources. -/
def grantsOver (role : OrgRole) (resources : List ResourceKey) (grants : Statements) :
    Statements :=
  resources.foldl (fun grants resource =>
    let allowed := allowedOperations reg role resource
    if allowed.length > 0 then assign grants (statementKey resource) (allowed.map Operation.name)
    else grants) grants

/-- `grantsByRole[role]`. -/
def grantsByRole (role : OrgRole) : Statements := grantsOver reg role reg.resourceKeys []

/-- What `newRole` is given for a role. -/
def roleStatements (role : OrgRole) : Statements :=
  spread (auth.baseStatements role) (grantsByRole reg role)

/-- `roles`, once the module has loaded.  `none` is the throw of its collision check. -/
def accessRoles : Option (OrgRole → auth.Role) :=
  if (shadowed auth reg).length > 0 then none
  else some fun role => auth.newRole (statement auth reg) (roleStatements auth reg role)

end

/-! ## What a role's statements hold -/

variable {auth : BetterAuth} {reg : Registry}

/-- Two resources never share a statement key, so no resource shadows another in the
statements. -/
theorem statementKey_injective : Function.Injective statementKey := fun _ _ h =>
  List.append_cancel_left h

/-- The operations a role is granted are those the gateway's own check lets it
do. -/
theorem allowedOperations_eq (role : OrgRole) (resource : ResourceKey) :
    allowedOperations reg role resource =
      (reg.operationsOf resource).filter fun operation =>
        can (reg.permissionsForRole role) resource operation := by
  apply List.filter_congr
  intro operation _
  rw [can, List.contains_eq_any_beq]
  congr 1
  funext permission
  exact Bool.beq_comm

/-- The loop writes each resource under its own key, and under no other. -/
theorem lookup_grantsOver (role : OrgRole) (resources : List ResourceKey) (grants : Statements)
    (k : JSString) :
    (grantsOver reg role resources grants).lookup k =
      match resources.find? (fun resource => statementKey resource == k &&
          decide ((allowedOperations reg role resource).length > 0)) with
      | some resource => some ((allowedOperations reg role resource).map Operation.name)
      | none => grants.lookup k := by
  unfold grantsOver
  induction resources generalizing grants with
  | nil => rfl
  | cons resource resources ih =>
      rw [List.foldl_cons, ih, List.find?_cons]
      by_cases hsome : (allowedOperations reg role resource).length > 0
      · by_cases hk : statementKey resource = k
        · subst hk
          cases hfind : resources.find? (fun r => statementKey r == statementKey resource &&
              decide ((allowedOperations reg role r).length > 0)) with
          | none => simp [hsome]
          | some r =>
              have hfound := List.find?_some hfind
              rw [Bool.and_eq_true, beq_iff_eq] at hfound
              obtain rfl := statementKey_injective hfound.1
              simp [hsome]
        · have hne : k ≠ statementKey resource := fun h => hk h.symm
          simp [hsome, beq_eq_false_iff_ne.mpr hk, hne]
      · simp [hsome]

/-- Under a declared resource's key stand the operations the role is allowed, if there is
one, and nothing otherwise. -/
theorem lookup_grantsByRole {role : OrgRole} {resource : ResourceKey}
    (hdeclared : resource ∈ reg.resourceKeys) :
    (grantsByRole reg role).lookup (statementKey resource) =
      if (allowedOperations reg role resource).length > 0 then
        some ((allowedOperations reg role resource).map Operation.name)
      else none := by
  rw [grantsByRole, lookup_grantsOver]
  cases hfind : reg.resourceKeys.find? (fun r => statementKey r == statementKey resource &&
      decide ((allowedOperations reg role r).length > 0)) with
  | some r =>
      have hfound := List.find?_some hfind
      rw [Bool.and_eq_true, beq_iff_eq, decide_eq_true_eq] at hfound
      obtain rfl := statementKey_injective hfound.1
      rw [if_pos hfound.2]
  | none =>
      have hno := List.find?_eq_none.mp hfind resource hdeclared
      rw [Bool.and_eq_true, beq_iff_eq, decide_eq_true_eq] at hno
      rw [if_neg fun hsome => hno ⟨rfl, hsome⟩]
      rfl

/-- Assigning one resource after another repeats no key, if none was repeated to begin with.
-/
theorem nodup_grantsOver (role : OrgRole) (resources : List ResourceKey) {grants : Statements}
    (h : (grants.map Prod.fst).Nodup) :
    ((grantsOver reg role resources grants).map Prod.fst).Nodup := by
  unfold grantsOver
  induction resources generalizing grants with
  | nil => exact h
  | cons resource resources ih =>
      rw [List.foldl_cons]
      by_cases hsome : (allowedOperations reg role resource).length > 0
      · exact ih (by simpa only [hsome, if_true] using nodup_assign h _ _)
      · exact ih (by simpa only [hsome, if_false] using h)

theorem nodup_grantsByRole (reg : Registry) (role : OrgRole) :
    ((grantsByRole reg role).map Prod.fst).Nodup := nodup_grantsOver role _ List.nodup_nil

/-- Under a registry key, a role's statements are its grants and nothing else. -/
theorem lookup_roleStatements {role : OrgRole} {resource : ResourceKey}
    (hauth : auth.Documented) (hloaded : (shadowed auth reg).length = 0)
    (hdeclared : resource ∈ reg.resourceKeys) :
    (roleStatements auth reg role).lookup (statementKey resource) =
      if (allowedOperations reg role resource).length > 0 then
        some ((allowedOperations reg role resource).map Operation.name)
      else none := by
  have hbase : (auth.baseStatements role).lookup (statementKey resource) = none := by
    rw [List.lookup_eq_none_iff]
    intro entry hentry
    have hkey := hauth.declared role entry.1 (List.mem_map_of_mem hentry)
    have hne : statementKey resource ≠ entry.1 := by
      intro heq
      have hshadowed : statementKey resource ∈ shadowed auth reg := by
        rw [shadowed, List.mem_filter]
        exact ⟨List.mem_map_of_mem hdeclared,
          List.any_eq_true.mpr ⟨_, hkey, beq_iff_eq.mpr heq.symm⟩⟩
      exact (List.length_pos_of_mem hshadowed).ne' hloaded
    simpa using hne
  rw [roleStatements, lookup_spread _ (nodup_grantsByRole reg role), lookup_grantsByRole hdeclared,
    hbase, Option.or_none]

/-- A role built for Better Auth allows an operation exactly where the role's permission
list holds it. -/
theorem authorize_accessRoles {roles : OrgRole → auth.Role} {role : OrgRole}
    {resource : ResourceKey} {operation : Operation} {rule : OperationRule}
    (hauth : auth.Documented) (hroles : accessRoles auth reg = some roles)
    (hrule : reg.ruleFor resource operation = some rule) :
    auth.authorize (roles role) (statementKey resource) operation.name = true ↔
      can (reg.permissionsForRole role) resource operation = true := by
  obtain ⟨d, hd⟩ := Registry.resource?_of_ruleFor hrule
  have hdeclared : resource ∈ reg.resourceKeys :=
    List.mem_map.mpr ⟨_, Registry.resource?_eq_some.mp hd, rfl⟩
  unfold accessRoles at hroles
  split at hroles
  · cases hroles
  · rename_i hshadowed
    obtain rfl := Option.some.inj hroles
    rw [hauth.authorizes, lookup_roleStatements hauth (Nat.eq_zero_of_not_pos hshadowed) hdeclared,
      allowedOperations_eq]
    constructor
    · intro h
      obtain ⟨actions, hactions, hmem⟩ := h
      split at hactions
      · obtain rfl := Option.some.inj hactions
        obtain ⟨operation', hallowed, hname⟩ := List.mem_map.mp hmem
        obtain rfl := Operation.name_injective hname
        exact (List.mem_filter.mp hallowed).2
      · cases hactions
    · intro hcan
      have hmem : operation ∈ (reg.operationsOf resource).filter fun operation =>
          can (reg.permissionsForRole role) resource operation :=
        List.mem_filter.mpr ⟨Registry.mem_operationsOf.mpr ⟨rule, hrule⟩, hcan⟩
      exact ⟨_, if_pos (List.length_pos_of_mem hmem), List.mem_map_of_mem hmem⟩

/-- The refusal of gate 5. -/
def lacksPermission : WireError :=
  wireError .permissionDenied (str "Envelope does not carry this permission.")

/-- The service's permission check on a signed meta, apart from the escalation check beside it. -/
theorem reassertAuthority_lacks {m : RequestMeta} {payload : Value} :
    reassertAuthority m payload = some lacksPermission ↔
      ¬ can m.permissions m.resource m.operation = true := by
  unfold reassertAuthority
  by_cases hcan : can m.permissions m.resource m.operation = true
  · rw [if_neg (not_not.mpr hcan)]
    constructor
    · intro h
      split at h
      · have hmessage := congrArg WireError.message (Option.some.inj h)
        have hyour : str "Your " = 89 :: str "our " := by decide
        have henvelope : lacksPermission.message =
            69 :: str "nvelope does not carry this permission." := by decide
        rw [henvelope, wireError, hyour] at hmessage
        exact absurd (List.cons.inj hmessage).1 (by decide)
      · cases h
    · exact fun h => absurd hcan h
  · rw [if_pos hcan]
    exact ⟨fun _ => hcan, fun _ => rfl⟩

/-- **The views agree.**  The gateway's rank comparison, its permission list,
the service's check of a meta that carries that list and the role handed to
Better Auth decide every declared operation alike; a higher role holds what a
lower one does, and no two operations share a permission string. -/
theorem permission_views_agree (hauth : auth.Documented) {roles : OrgRole → auth.Role}
    (hroles : accessRoles auth reg = some roles) :
    (∀ role resource operation rule, reg.ruleFor resource operation = some rule →
      (can (reg.permissionsForRole role) resource operation = true ↔
        roleAtLeast role rule.minRole = true) ∧
      (∀ m payload, m.permissions = reg.permissionsForRole role → m.resource = resource →
        m.operation = operation →
        (reassertAuthority m payload ≠ some lacksPermission ↔
          roleAtLeast role rule.minRole = true)) ∧
      (auth.authorize (roles role) (statementKey resource) operation.name = true ↔
        roleAtLeast role rule.minRole = true)) ∧
    (∀ higher lower, roleRank lower ≤ roleRank higher →
      reg.permissionsForRole lower ⊆ reg.permissionsForRole higher) ∧
    (∀ resource resource' operation operation',
      toPermission resource operation = toPermission resource' operation' →
        resource = resource' ∧ operation = operation') := by
  refine ⟨?_, fun higher lower h => permissionsForRole_mono reg h, fun _ _ _ _ h =>
    toPermission_injective h⟩
  intro role resource operation rule hrule
  refine ⟨can_permissionsForRole hrule, ?_, ?_⟩
  · intro m payload hpermissions hresource hoperation
    rw [ne_eq, reassertAuthority_lacks, not_not, hpermissions, hresource, hoperation]
    exact can_permissionsForRole hrule
  · rw [authorize_accessRoles hauth hroles hrule]
    exact can_permissionsForRole hrule

/-! ### The shipped registry under Better Auth's own statements -/

/-- Better Auth as it documents itself: an action is allowed where a role's
statements list it. -/
def betterAuth : BetterAuth where
  Role := Statements
  defaultStatements :=
    [(str "organization", [str "update", str "delete"]),
     (str "member", [str "create", str "update", str "delete"]),
     (str "invitation", [str "create", str "cancel"]),
     (str "team", [str "create", str "update", str "delete"]),
     (str "ac", [str "create", str "read", str "update", str "delete"])]
  baseStatements
    | .member => [(str "organization", []), (str "member", []), (str "invitation", []),
        (str "team", []), (str "ac", [str "read"])]
    | .admin => [(str "organization", [str "update"]),
        (str "invitation", [str "create", str "cancel"]),
        (str "member", [str "create", str "update", str "delete"]),
        (str "team", [str "create", str "update", str "delete"]),
        (str "ac", [str "create", str "read", str "update", str "delete"])]
    | .owner => [(str "organization", [str "update", str "delete"]),
        (str "member", [str "create", str "update", str "delete"]),
        (str "invitation", [str "create", str "cancel"]),
        (str "team", [str "create", str "update", str "delete"]),
        (str "ac", [str "create", str "read", str "update", str "delete"])]
  newRole := fun _ statements => statements
  authorize := fun statements key action => ((statements.lookup key).getD []).contains action

/-- The access control that is written out here behaves as is documented. -/
theorem betterAuth_documented : betterAuth.Documented where
  declared role := by cases role <;> decide
  authorizes statement statements key action := by
    show ((statements.lookup key).getD []).contains action = true ↔ _
    cases hlookup : statements.lookup key with
    | none => simp
    | some actions => simp

/-- The shipped registry loads, and an admin may create a project in all views. -/
theorem shipped_admin_creates_projects :
    ∃ roles, accessRoles betterAuth registry = some roles ∧
      betterAuth.authorize (roles .admin) (statementKey (str "project")) (str "create") = true := by
  have hloaded : (accessRoles betterAuth registry).isSome = true := by decide
  obtain ⟨roles, hroles⟩ := Option.isSome_iff_exists.mp hloaded
  obtain ⟨rule, hrule, hrole⟩ : ∃ rule, registry.ruleFor (str "project") .create = some rule ∧
      roleAtLeast .admin rule.minRole = true := ⟨_, rfl, by decide⟩
  obtain ⟨hviews, -, -⟩ := permission_views_agree betterAuth_documented hroles
  obtain ⟨-, -, hauthorize⟩ := hviews .admin (str "project") .create rule hrule
  exact ⟨roles, hroles, hauthorize.mpr hrole⟩

end Guardrail
