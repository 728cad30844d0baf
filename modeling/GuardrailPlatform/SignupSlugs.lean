import GuardrailPlatform.WorkspaceCreation

/-!
# The slug of a first workspace

The signup hook makes the slug of a new user's workspace itself: the words of
the workspace's name joined by hyphens, cut at 32 characters, then a hyphen and
the first eight characters of the new id.  The hook says that the first part has
the shape the contract accepts.  It is trimmed before it is cut, so the cut may
leave a hyphen at its end, and the slug then has two in a row.
-/

namespace Guardrail

open Js Words

/-! ## Identifiers -/

def isHexUnit (u : UInt16) : Bool := (48 ≤ u && u ≤ 57) || (97 ≤ u && u ≤ 102)

/-- What `crypto.randomUUID` returns: 36 characters, hyphens at four places and
hexadecimal digits in lower case at the others. -/
def isUuid (id : JSString) : Bool :=
  decide (id.length = 36) && id.zipIdx.all fun entry =>
    if entry.2 ∈ [8, 13, 18, 23] then entry.1 == 45 else isHexUnit entry.1

/-- A hexadecimal digit, as a uuid has them, may stand in a slug. -/
theorem isSlugUnit_of_isHexUnit {u : UInt16} (h : isHexUnit u = true) : isSlugUnit u = true := by
  simp only [isHexUnit, isSlugUnit, Bool.or_eq_true, Bool.and_eq_true, decide_eq_true_eq,
    UInt16.le_iff_toNat_le] at h ⊢
  rcases h with h | h
  · exact .inr h
  · exact .inl ⟨h.1, h.2.trans (by decide)⟩

/-- The part of an identifier that goes into the slug is one word of it. -/
theorem isUuid_take {id : JSString} (h : isUuid id = true) :
    (id.take 8).length = 8 ∧ ∀ u ∈ id.take 8, isSlugUnit u = true := by
  rw [isUuid, Bool.and_eq_true, decide_eq_true_eq] at h
  obtain ⟨hlength, hunits⟩ := h
  constructor
  · rw [List.length_take]
    omega
  · intro u hu
    obtain ⟨i, hi, rfl⟩ := List.mem_iff_getElem.mp hu
    rw [List.length_take] at hi
    have hentry := List.all_eq_true.mp hunits (id[i], i)
      (List.mk_mem_zipIdx_iff_getElem?.mpr (List.getElem?_eq_getElem (by omega)))
    have hplace : i ∉ [8, 13, 18, 23] := by
      simp only [List.mem_cons, List.not_mem_nil, or_false]
      omega
    rw [if_neg hplace] at hentry
    rw [List.getElem_take]
    exact isSlugUnit_of_isHexUnit hentry

/-! ## Slugs -/

/-- Before it is cut, the words of the name joined by hyphens. -/
theorem SignupHook.slugify_eq (toLowerCase : JSString → JSString) (value : JSString) :
    SignupHook.slugify toLowerCase value =
      if words isSlugUnit (toLowerCase value) = [] then str "workspace"
      else (joined 45 (words isSlugUnit (toLowerCase value))).take 32 := by
  rw [SignupHook.slugify, trimMarks_collapse isSlugUnit_hyphen]
  by_cases hwords : words isSlugUnit (toLowerCase value) = []
  · rw [if_pos hwords, hwords, joined_nil]
    rfl
  · obtain ⟨u, s, -, hjoined⟩ := joined_words_eq_cons hwords
    rw [if_neg hwords, hjoined]
    rfl

/-- The slug is words joined by single hyphens unless the cut falls right behind a hyphen.
-/
theorem SignupHook.isJoined_slugify_iff (toLowerCase : JSString → JSString) (value : JSString) :
    IsJoined isSlugUnit 45 (SignupHook.slugify toLowerCase value) ↔
      ¬ CutsAt (words isSlugUnit (toLowerCase value)) 32 := by
  rw [SignupHook.slugify_eq]
  by_cases hwords : words isSlugUnit (toLowerCase value) = []
  · rw [if_pos hwords, hwords]
    apply iff_of_true
    · have hword : (str "workspace").all isSlugUnit = true := by decide
      exact isJoined_of_word isSlugUnit_hyphen (by decide) (List.all_eq_true.mp hword)
    · intro hcut
      obtain ⟨k, -, hk, -⟩ := hcut
      exact Nat.not_lt_zero k hk
  · rw [if_neg hwords]
    exact isJoined_take_iff isSlugUnit_hyphen hwords (words_spec _) (by decide)

/-- The hook cuts the slug of a name at thirty-two units, whatever the name. -/
theorem SignupHook.length_slugify_le (toLowerCase : JSString → JSString) (value : JSString) :
    (SignupHook.slugify toLowerCase value).length ≤ 32 := by
  rw [SignupHook.slugify_eq]
  split
  · decide
  · exact List.length_take_le _ _

/-- **Signup slugs.**  The organisation contract accepts the slug of a new
user's workspace unless the cut of its name falls behind a hyphen. -/
theorem signup_slug_iff (toLowerCase : JSString → JSString) (created : CreatedUser)
    (ambient : Ambient) (h : isUuid (ambient.uuid 0) = true) :
    isOrganizationSlug (SignupHook.workspace toLowerCase created ambient).slug = true ↔
      ¬ CutsAt (words isSlugUnit
        (toLowerCase (SignupHook.workspaceName created.name created.email))) 32 := by
  obtain ⟨hlength, hword⟩ := isUuid_take h
  have hslug : (SignupHook.workspace toLowerCase created ambient).slug =
      SignupHook.slugify toLowerCase (SignupHook.workspaceName created.name created.email) ++
        45 :: (ambient.uuid 0).take 8 := by
    show _ ++ str "-" ++ _ = _
    rw [List.append_assoc]
    rfl
  have hshort := SignupHook.length_slugify_le toLowerCase
    (SignupHook.workspaceName created.name created.email)
  have hsuffix : IsJoined isSlugUnit 45 ((ambient.uuid 0).take 8) := by
    apply isJoined_of_word isSlugUnit_hyphen _ hword
    apply List.ne_nil_of_length_pos
    omega
  rw [isOrganizationSlug_iff, hslug, isJoined_append_iff, and_iff_left hsuffix,
    ← SignupHook.isJoined_slugify_iff]
  apply and_iff_right
  rw [List.length_append, List.length_cons, hlength]
  omega

/-- A signup, and the ids it draws. -/
def signupAmbient : Ambient :=
  { idleAmbient with uuid := fun _ => str "0f8fad5b-d9cb-469f-a165-70867728950e" }

/-- Ada's workspace has a short name, and a slug that the contract would accept. -/
theorem signup_slug_ada : isOrganizationSlug
    (SignupHook.workspace asciiLowerCase ada signupAmbient).slug = true := by
  apply (signup_slug_iff asciiLowerCase ada signupAmbient (by decide)).mpr
  intro hcut
  obtain ⟨k, hpos, hlt, hlength⟩ := hcut
  have hwords : words isSlugUnit
      (asciiLowerCase (SignupHook.workspaceName ada.name ada.email)) =
        [str "ada", str "s", str "workspace"] := by decide
  rw [hwords] at hlt hlength
  have htwo : k = 1 ∨ k = 2 := by
    simp only [List.length_cons, List.length_nil] at hlt
    omega
  rcases htwo with rfl | rfl <;> exact absurd hlength (by decide)

/-- Someone whose name is one word of 29 letters. -/
def longName : CreatedUser :=
  { id := str "u2", name := some (List.replicate 29 97), email := str "a@example.com" }

/-- The cut falls behind a hyphen, so the slug has two in a row and the contract would
refuse it. -/
theorem longName_slug_refused :
    isUuid (signupAmbient.uuid 0) = true ∧
    (SignupHook.workspace asciiLowerCase longName signupAmbient).slug =
      List.replicate 29 97 ++ str "-s--0f8fad5b" ∧
    isOrganizationSlug (SignupHook.workspace asciiLowerCase longName signupAmbient).slug = false := by
  decide

end Guardrail
