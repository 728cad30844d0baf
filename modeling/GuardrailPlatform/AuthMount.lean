import GuardrailPlatform.OperationNames

/-!
# The auth mount

Better Auth mounts its endpoints behind one catch-all route.  A table lists the
ones the registry has taken over, and the route answers those with a refusal
that names the operation to use instead; a second table lists the ones that
stay, and no code but the checker's reads it.

Three parties keep the tables honest: the module refuses to load when an entry
names an operation the registry does not declare, the types let an entry name
nothing else, and the checker compares both tables with the vendor's own list.
Together they leave no endpoint undecided, as long as the first table's paths
are written the way the route looks them up: the checker reads past a leading
slash, the route does not.
-/

namespace Guardrail

open Js

/-! ## The tables and the route -/

/-- An entry of `SUPERSEDED`.  `by` is a resource and an operation. -/
structure SupersededEndpoint where
  path : JSString
  resource : ResourceKey
  operation : Operation
  instead : JSString
deriving DecidableEq

/-- `entry.by`. -/
def SupersededEndpoint.permission (endpoint : SupersededEndpoint) : JSString :=
  toPermission endpoint.resource endpoint.operation

/-- Does the module load?  Every supersession has to name a declared operation. -/
def Registry.loads (reg : Registry) (superseded : List SupersededEndpoint) : Bool :=
  (superseded.filter fun endpoint => reg.isDangling endpoint.permission).isEmpty

/-- What follows the first occurrence, as `indexOf` and `slice` find it. -/
def afterFirst (needle : JSString) (s : JSString) : Option JSString :=
  if needle.isPrefixOf s then some (s.drop needle.length)
  else
    match s with
    | [] => none
    | _ :: rest => afterFirst needle rest

/-- `replace(/\/+$/, "")`. -/
def withoutTrailing (s : JSString) : JSString := (s.reverse.dropWhile (· == 47)).reverse

/-- `BY_PATH.get`: of two entries of one path, the later one. -/
def byPath (superseded : List SupersededEndpoint) (path : JSString) : Option SupersededEndpoint :=
  superseded.reverse.find? (·.path == path)

/-- `supersedes`. -/
def supersedes (superseded : List SupersededEndpoint) (pathname : JSString) :
    Option SupersededEndpoint :=
  (afterFirst (str "/api/auth/") pathname).bind fun rest => byPath superseded (withoutTrailing rest)

/-- What the route answers, to a `GET` as to a `POST`. -/
inductive MountAnswer
  /-- 410, with the body of `refuse`. -/
  | refused (body : Value)
  /-- Better Auth's own handler. -/
  | delegated

/-- The body of `refuse`. -/
def refusalOf (endpoint : SupersededEndpoint) : Value :=
  .object [(str "error", .string (str "ENDPOINT_SUPERSEDED")),
    (str "message", .string (str "/api/auth/" ++ endpoint.path ++
      str " is no longer served. Call the gateway's " ++ endpoint.instead ++
      str (" instead - it carries the role, permission, rate limit, plan and audit checks this " ++
        "path did not."))),
    (str "permission", .string endpoint.permission)]

/-- `GET` and `POST`. -/
def mountAnswer (superseded : List SupersededEndpoint) (pathname : JSString) : MountAnswer :=
  match supersedes superseded pathname with
  | none => .delegated
  | some endpoint => .refused (refusalOf endpoint)

/-! ## The checker's rule -/

/-- `bare`: without leading slashes. -/
def bare (path : JSString) : JSString := path.dropWhile (· == 47)

/-- The verdicts of both tables: a path kept overrides one superseded. -/
def verdicts (superseded : List SupersededEndpoint) (kept : List JSString) :
    List (JSString × JSString) :=
  (superseded.map fun endpoint => (bare endpoint.path, endpoint.permission)) ++
    kept.map fun path => (bare path, [])

/-- `everyEndpointHasAVerdict`: what it reports.  `none` is a vendor that could
not be read, which is reported by itself. -/
def undecidedEndpoints (superseded : List SupersededEndpoint) (kept : List JSString)
    (mounted : Option (List JSString)) : List JSString :=
  match mounted with
  | none => [str "SUPERSEDED cannot be checked"]
  | some paths =>
    paths.filter fun path => !(verdicts superseded kept).any fun verdict => verdict.1 == bare path

/-! ## The shipped tables -/

/-- `organization/…`, a path of the organization plugin. -/
def organizationPath (last : String) : JSString := str "organization/" ++ str last

/-- `SUPERSEDED`. -/
def shippedSuperseded : List SupersededEndpoint :=
  [⟨organizationPath "create", str "organization", .create, str "organization.create"⟩,
   ⟨organizationPath "update", str "organization", .update, str "organization.update"⟩,
   ⟨organizationPath "delete", str "organization", .delete, str "organization.remove"⟩,
   ⟨organizationPath "get-full-organization", str "organization", .read,
     str "organization.current"⟩,
   ⟨organizationPath "get-organization", str "organization", .read, str "organization.current"⟩,
   ⟨organizationPath "list-members", str "member", .read, str "member.list"⟩,
   ⟨organizationPath "invite-member", str "member", .create, str "member.invite"⟩,
   ⟨organizationPath "update-member-role", str "member", .update, str "member.setRole"⟩,
   ⟨organizationPath "remove-member", str "member", .delete, str "member.remove"⟩,
   ⟨organizationPath "list-invitations", str "invitation", .read, str "invitation.list"⟩,
   ⟨organizationPath "cancel-invitation", str "invitation", .delete, str "invitation.revoke"⟩,
   ⟨organizationPath "leave", str "membership", .delete, str "organization.leave"⟩]

/-- The keys of `KEPT`. -/
def shippedKept : List JSString :=
  ["set-active", "list", "accept-invitation", "reject-invitation", "get-invitation", "check-slug",
    "has-permission", "get-active-member", "get-active-member-role",
    "list-user-invitations"].map organizationPath

/-- The endpoints of both tables, as the vendor writes them. -/
def shippedMounted : List JSString :=
  (shippedSuperseded.map (·.path) ++ shippedKept).map fun path => str "/" ++ path

/-! ## Paths -/

section Paths

variable {reg : Registry} {superseded : List SupersededEndpoint} {kept : List JSString}

/-- What follows a needle's first occurrence, where the needle stands at the very front of
the text. -/
theorem afterFirst_self (needle rest : JSString) :
    afterFirst needle (needle ++ rest) = some rest := by
  unfold afterFirst
  rw [if_pos (List.isPrefixOf_iff_prefix.mpr (List.prefix_append _ _)), List.drop_left]

/-- However many slashes lead a path, all of them are dropped before what follows is looked
at. -/
theorem dropWhile_slashes (n : ℕ) (s : JSString) :
    (List.replicate n 47 ++ s).dropWhile (· == 47) = s.dropWhile (· == 47) := by
  induction n with
  | zero => rfl
  | succ n ih => exact ih

/-- Slashes at the end of a path do not matter: without them it is the path they were put
behind. -/
theorem withoutTrailing_slashes (s : JSString) (n : ℕ) (h : s.getLast? ≠ some 47) :
    withoutTrailing (s ++ List.replicate n 47) = s := by
  unfold withoutTrailing
  rw [List.reverse_append, List.reverse_replicate, dropWhile_slashes]
  have hsame : s.reverse.dropWhile (· == 47) = s.reverse := by
    cases hs : s.reverse with
    | nil => rfl
    | cons unit rest =>
        have hlast : s.getLast? = some unit := by
          rw [← List.head?_reverse, hs, List.head?_cons]
        rw [List.dropWhile_cons_of_neg]
        intro hslash
        rw [beq_iff_eq.mp hslash] at hlast
        exact h hlast
  rw [hsame, List.reverse_reverse]

/-- An endpoint that is found by its path is one of the list, and has that path. -/
theorem byPath_eq_some {path : JSString} {endpoint : SupersededEndpoint}
    (h : byPath superseded path = some endpoint) : endpoint ∈ superseded ∧ endpoint.path = path := by
  obtain hfound := List.find?_some h
  exact ⟨List.mem_reverse.mp (List.mem_of_find?_eq_some h), beq_iff_eq.mp hfound⟩

/-- The path of each superseded endpoint is found in the table, be it under that endpoint or
under one of the same path. -/
theorem exists_byPath {endpoint : SupersededEndpoint} (h : endpoint ∈ superseded) :
    ∃ found, byPath superseded endpoint.path = some found := by
  unfold byPath
  rw [← Option.isSome_iff_exists, List.find?_isSome]
  exact ⟨endpoint, List.mem_reverse.mpr h, beq_self_eq_true _⟩

/-- Once the module has loaded, what its table names is an operation the registry declares.
-/
theorem declared_of_loads (hcolon : ∀ resource ∈ reg.resourceKeys, (58 : UInt16) ∉ resource)
    (hloads : reg.loads superseded = true) {endpoint : SupersededEndpoint}
    (hmem : endpoint ∈ superseded) (hkey : endpoint.resource ∈ reg.resourceKeys) :
    ∃ rule, reg.ruleFor endpoint.resource endpoint.operation = some rule := by
  have hdangling : reg.isDangling endpoint.permission = false := by
    have hnone := List.filter_eq_nil_iff.mp (List.isEmpty_iff.mp hloads) endpoint hmem
    simpa using hnone
  have hsplit : endpoint.permission.splitOn 58 = [endpoint.resource, endpoint.operation.name] := by
    have hname : (58 : UInt16) ∉ endpoint.operation.name := by
      cases endpoint.operation <;> decide
    have hparts : ∀ part ∈ [endpoint.resource, endpoint.operation.name], (58 : UInt16) ∉ part := by
      intro part hpart
      rcases List.mem_cons.mp hpart with rfl | hpart
      · exact hcolon _ hkey
      · rw [List.mem_singleton.mp hpart]
        exact hname
    have hjoin : [(58 : UInt16)].intercalate [endpoint.resource, endpoint.operation.name] =
        endpoint.permission := by
      have hmark : str ":" = [58] := by decide
      unfold SupersededEndpoint.permission toPermission
      rw [hmark]
      simp [List.intercalate]
    rw [← hjoin]
    exact List.splitOn_intercalate 58 hparts (List.cons_ne_nil _ _)
  obtain ⟨d, hd⟩ := Registry.isResourceKey_iff.mp
    (List.any_eq_true.mpr ⟨_, hkey, beq_self_eq_true _⟩ : reg.isResourceKey endpoint.resource = true)
  have hnot := (not_congr (isDangling_iff hd hsplit)).mp (Bool.eq_false_iff.mp hdangling)
  have hdeclared : ∃ operation ∈ reg.operationsOf endpoint.resource,
      operation.name = endpoint.operation.name := by
    by_contra hnone
    apply hnot
    refine ⟨?_, operation_name_notMem endpoint.operation⟩
    intro operation hoperation hsame
    exact hnone ⟨operation, hoperation, hsame⟩
  obtain ⟨operation, hoperation, hname⟩ := hdeclared
  rw [← Operation.name_injective hname]
  exact Registry.mem_operationsOf.mp hoperation

/-- The route looks an endpoint up by what follows the mount, slashes at its end aside. -/
theorem supersedes_mounted {path : JSString} (n : ℕ) (hend : path.getLast? ≠ some 47) :
    supersedes superseded (str "/api/auth/" ++ path ++ List.replicate n 47) =
      byPath superseded path := by
  unfold supersedes
  rw [List.append_assoc, afterFirst_self, Option.bind_some, withoutTrailing_slashes path n hend]

/-- The paths of the table are written as the route looks them up. -/
def WrittenBare (superseded : List SupersededEndpoint) : Prop :=
  ∀ endpoint ∈ superseded, bare endpoint.path = endpoint.path

/-- **Every endpoint is decided.**  Where the module loads and the checker reports
no endpoint, each endpoint the vendor mounts is either refused, on every request
for it and with a declared operation named instead, or is one of those kept.
This takes the table's paths to be written without leading slashes. -/
theorem mounts_decided (reg : Registry)
    (hcolon : ∀ resource ∈ reg.resourceKeys, (58 : UInt16) ∉ resource)
    (superseded : List SupersededEndpoint) (kept : List JSString)
    (htyped : ∀ endpoint ∈ superseded, endpoint.resource ∈ reg.resourceKeys)
    (hloads : reg.loads superseded = true) (hbare : WrittenBare superseded)
    (mounted : Option (List JSString))
    (hsilent : undecidedEndpoints superseded kept mounted = []) :
    ∃ paths, mounted = some paths ∧ ∀ path ∈ paths, (bare path).getLast? ≠ some 47 → ∀ n,
      (∃ endpoint ∈ superseded, endpoint.path = bare path ∧
        mountAnswer superseded (str "/api/auth/" ++ bare path ++ List.replicate n 47) =
          .refused (refusalOf endpoint) ∧
        ∃ rule, reg.ruleFor endpoint.resource endpoint.operation = some rule) ∨
      (∃ written ∈ kept, bare written = bare path) ∧
        mountAnswer superseded (str "/api/auth/" ++ bare path ++ List.replicate n 47) =
          .delegated := by
  cases mounted with
  | none => cases hsilent
  | some paths =>
      refine ⟨paths, rfl, ?_⟩
      intro path hpath hend n
      unfold mountAnswer
      rw [supersedes_mounted n hend]
      cases hfound : byPath superseded (bare path) with
      | some endpoint =>
          obtain ⟨hmem, hsame⟩ := byPath_eq_some hfound
          left
          exact ⟨endpoint, hmem, hsame, rfl,
            declared_of_loads hcolon hloads hmem (htyped endpoint hmem)⟩
      | none =>
          right
          refine ⟨?_, rfl⟩
          have hverdict := List.filter_eq_nil_iff.mp hsilent path hpath
          rw [Bool.not_eq_true, Bool.not_eq_false', List.any_eq_true] at hverdict
          obtain ⟨verdict, hverdict, hsame⟩ := hverdict
          rcases List.mem_append.mp hverdict with hin | hin
          · -- a superseded path would have been found
            obtain ⟨endpoint, hmem, rfl⟩ := List.mem_map.mp hin
            obtain ⟨found, hby⟩ := exists_byPath hmem
            have hpathname : endpoint.path = bare path :=
              (hbare endpoint hmem).symm.trans (beq_iff_eq.mp hsame)
            rw [hpathname, hfound] at hby
            cases hby
          · obtain ⟨written, hmem, rfl⟩ := List.mem_map.mp hin
            exact ⟨written, hmem, beq_iff_eq.mp hsame⟩

/-- In the shipped tables each mounted path is refused, with a declared operation in its
place, or kept. -/
theorem shipped_mounts_decided :
    ∃ paths, some shippedMounted = some paths ∧
      ∀ path ∈ paths, (bare path).getLast? ≠ some 47 → ∀ n,
        (∃ endpoint ∈ shippedSuperseded, endpoint.path = bare path ∧
          mountAnswer shippedSuperseded
              (str "/api/auth/" ++ bare path ++ List.replicate n 47) =
            .refused (refusalOf endpoint) ∧
          ∃ rule, registry.ruleFor endpoint.resource endpoint.operation = some rule) ∨
        (∃ written ∈ shippedKept, bare written = bare path) ∧
          mountAnswer shippedSuperseded
              (str "/api/auth/" ++ bare path ++ List.replicate n 47) =
            .delegated :=
  mounts_decided registry (by decide) shippedSuperseded shippedKept (by decide) (by decide)
    (by unfold WrittenBare; decide) (some shippedMounted) (by decide)

end Paths

end Guardrail
