import GuardrailPlatform.RankedChoice
import GuardrailPlatform.Registry

/-!
# The role column

`member.role` is free text in which several roles may stand, cut by commas.
`normalizeRole` folds over the parts and keeps the highest role it knows, so a
column is worth what it claims: joining two columns joins their roles, and the
order of the parts, their repetition, the blanks around them and every name
that is no role make no difference.
-/

namespace Guardrail

open Js Ranked

/-- `normalizeRole` of whatever an identity provider hands over. -/
def normalizeRoleOf : Value → OrgRole
  | .string column => normalizeRole column
  | _ => lowestRole

/-- The declared role one part names. -/
def knownRole (claimed : JSString) : Option OrgRole :=
  orgRoles.find? (fun role => role.name == trim claimed)

/-- The declared roles of a column, part by part. -/
def claimedRoles (column : JSString) : List OrgRole := (column.splitOn 44).filterMap knownRole

/-- A part of the column is the role's name, once its blanks are trimmed. -/
def ClaimsRole (column : JSString) (role : OrgRole) : Prop :=
  ∃ part ∈ column.splitOn 44, trim part = role.name

theorem mem_orgRoles (role : OrgRole) : role ∈ orgRoles := by cases role <;> decide

/-- A column that holds the name of one role is read as that role. -/
theorem normalizeRole_name (role : OrgRole) : normalizeRole role.name = role := by
  cases role <;> decide

theorem roleRank_injective : Function.Injective roleRank := by
  intro a b h
  cases a <;> cases b <;> first | rfl | exact absurd h (by decide)

theorem roleRank_lowestRole_le (role : OrgRole) : roleRank lowestRole ≤ roleRank role := by
  cases role <;> decide

/-- A part of the column is a role's where trimming it gives the role's name. -/
theorem knownRole_eq_some {part : JSString} {role : OrgRole} :
    knownRole part = some role ↔ trim part = role.name := by
  constructor
  · intro h
    have hfound := List.find?_some h
    exact (beq_iff_eq.mp hfound).symm
  · intro h
    have hsome : (knownRole part).isSome := by
      rw [knownRole, List.find?_isSome]
      exact ⟨role, mem_orgRoles role, beq_iff_eq.mpr h.symm⟩
    obtain ⟨other, hother⟩ := Option.isSome_iff_exists.mp hsome
    have hfound := List.find?_some hother
    have hname : other.name = trim part := beq_iff_eq.mp hfound
    rw [hother, OrgRole.name_injective (hname.trans h)]

/-- The roles that are read out of a column are those it claims. -/
theorem mem_claimedRoles {column : JSString} {role : OrgRole} :
    role ∈ claimedRoles column ↔ ClaimsRole column role := by
  simp only [claimedRoles, List.mem_filterMap, knownRole_eq_some, ClaimsRole]

/-- The parts of two columns joined by a comma are those of the one, then those of the
other. -/
theorem claimedRoles_join (a b : JSString) :
    claimedRoles (a ++ str "," ++ b) = claimedRoles a ++ claimedRoles b := by
  have hcomma : a ++ str "," ++ b = a ++ 44 :: b := List.append_assoc a [44] b
  rw [claimedRoles, hcomma, List.splitOn_append_cons_self, List.filterMap_append]
  rfl

/-- The fold of the source keeps the highest of the declared roles. -/
theorem normalizeRole_eq_highest (column : JSString) :
    normalizeRole column = highest roleRank lowestRole (claimedRoles column) := by
  rw [highest, claimedRoles, List.foldl_filterMap, normalizeRole]
  congr 1
  funext best claimed
  unfold knownRole
  split <;> rename_i hknown <;> rw [hknown]
  rfl

/-- The result is claimed, or nothing is and it is the lowest. -/
theorem normalizeRole_claimed (column : JSString) :
    ClaimsRole column (normalizeRole column) ∨ normalizeRole column = lowestRole := by
  rw [normalizeRole_eq_highest, ← mem_claimedRoles]
  exact (List.mem_cons.mp (highest_mem lowestRole (claimedRoles column))).symm

/-- A column is read as no lower a role than any it claims. -/
theorem roleRank_le_normalizeRole {column : JSString} {role : OrgRole}
    (h : ClaimsRole column role) : roleRank role ≤ roleRank (normalizeRole column) := by
  rw [normalizeRole_eq_highest]
  exact rank_le_highest _ _ role (List.mem_cons_of_mem _ (mem_claimedRoles.mpr h))

/-- Two columns that claim the same roles, in whatever spelling, are worth the same. -/
theorem normalizeRole_congr {column column' : JSString}
    (h : ∀ role, ClaimsRole column role ↔ ClaimsRole column' role) :
    normalizeRole column = normalizeRole column' := by
  rw [normalizeRole_eq_highest, normalizeRole_eq_highest]
  apply highest_congr fun a _ b _ hrank => roleRank_injective hrank
  intro role
  rw [mem_claimedRoles, mem_claimedRoles, h]

/-- **A role column is a join.**  Joining columns takes the higher of their
roles; a column is worth the highest role it claims, the lowest role where it
claims none, and depends on nothing else; what is no text is worth the lowest. -/
theorem role_column_is_join :
    (∀ a b, normalizeRole (a ++ str "," ++ b) =
      higher roleRank (normalizeRole a) (normalizeRole b)) ∧
    (∀ column, (∃ role, ClaimsRole column role) →
      ClaimsRole column (normalizeRole column) ∧
        ∀ role, ClaimsRole column role → roleRank role ≤ roleRank (normalizeRole column)) ∧
    (∀ column, (¬ ∃ role, ClaimsRole column role) → normalizeRole column = lowestRole) ∧
    (∀ column column', (∀ role, ClaimsRole column role ↔ ClaimsRole column' role) →
      normalizeRole column = normalizeRole column') ∧
    (∀ column, normalizeRoleOf (.string column) = normalizeRole column) ∧
    ∀ value, (∀ column, value ≠ .string column) → normalizeRoleOf value = lowestRole := by
  refine ⟨?_, ?_, ?_, fun column column' => normalizeRole_congr, fun column => rfl, ?_⟩
  · intro a b
    simp only [normalizeRole_eq_highest, claimedRoles_join]
    exact highest_append_eq roleRank_injective _ _ _
  · intro column hsome
    refine ⟨?_, fun role hrole => roleRank_le_normalizeRole hrole⟩
    rcases normalizeRole_claimed column with hclaimed | hlowest
    · exact hclaimed
    · -- what is claimed is no lower than the lowest role, so it is that role
      obtain ⟨role, hrole⟩ := hsome
      have hle := roleRank_le_normalizeRole hrole
      have hge := roleRank_lowestRole_le role
      rw [hlowest] at hle ⊢
      rwa [roleRank_injective (le_antisymm hge hle)]
  · intro column hnone
    rcases normalizeRole_claimed column with hclaimed | hlowest
    · exact absurd ⟨_, hclaimed⟩ hnone
    · exact hlowest
  · intro value hvalue
    cases value with
    | string column => exact absurd rfl (hvalue column)
    | _ => rfl

end Guardrail
