import GuardrailPlatform.Contracts
import GuardrailPlatform.Words

/-!
# Suggested slugs

The forms suggest a slug for a name: lowercased, hyphenated, trimmed of hyphens,
and cut at 48 characters.  What comes before the cut is the words of the name
joined by hyphens.  The cut comes last, so it may leave a hyphen at the end: the
project contract accepts that, the organisation contract does not.
-/

namespace Guardrail

open Js Words

/-- The suggestion before it is cut. -/
def hyphenated (lowered : JSString) : JSString :=
  trimMarks 45 (collapse isSlugUnit 45 false (trim lowered))

/-- `slugify`.  `toLowerCase` is the language's. -/
def slugify (toLowerCase : JSString → JSString) (name : JSString) : JSString :=
  (hyphenated (toLowerCase name)).take 48

/-- `toLowerCase` on ASCII. -/
def asciiLowerCase (s : JSString) : JSString :=
  s.map fun u => if 65 ≤ u.toNat ∧ u.toNat ≤ 90 then u + 32 else u

example : slugify asciiLowerCase (str "  Acme & Sons, Ltd. ") = str "acme-sons-ltd" := by decide

/-- A hyphen joins the words of a slug and is in none of them. -/
theorem isSlugUnit_hyphen : isSlugUnit 45 = false := by decide

/-- A unit that trimming takes away is no part of a slug. -/
theorem isSlugUnit_of_isTrimmed {u : UInt16} (h : isTrimmed u = true) : isSlugUnit u = false := by
  have hblanks : (([9, 10, 11, 12, 13, 32, 160, 0x1680, 0x2028, 0x2029, 0x202F, 0x205F, 0x3000,
      0xFEFF] : List UInt16).all fun v => !isSlugUnit v) = true := by decide
  rw [isTrimmed, Bool.or_eq_true, decide_eq_true_eq] at h
  rcases h with h | h
  · simpa using List.all_eq_true.mp hblanks u h
  · simp only [Bool.and_eq_true, decide_eq_true_eq] at h
    have hletters : ¬ (97 ≤ u.toNat ∧ u.toNat ≤ 122) := by omega
    have hdigits : ¬ (48 ≤ u.toNat ∧ u.toNat ≤ 57) := by omega
    simp [isSlugUnit, UInt16.le_iff_toNat_le]
    omega

theorem words_trim (s : JSString) : words isSlugUnit (trim s) = words isSlugUnit s := by
  have htrim : trim s = (s.dropWhile isTrimmed).rdropWhile isTrimmed := rfl
  rw [htrim, words_rdropWhile fun u => isSlugUnit_of_isTrimmed,
    words_dropWhile fun u => isSlugUnit_of_isTrimmed]

/-- What stands before the cut are the words of the name, joined by hyphens. -/
theorem hyphenated_eq (lowered : JSString) :
    hyphenated lowered = joined 45 (words isSlugUnit lowered) := by
  rw [hyphenated, trimMarks_collapse isSlugUnit_hyphen, words_trim]

/-- The joined words are at least as long as the name's letters and digits together. -/
theorem length_filter_le (lowered : JSString) :
    (lowered.filter isSlugUnit).length ≤ (hyphenated lowered).length := by
  rw [hyphenated_eq, ← words_flatten, ← joined_filter isSlugUnit_hyphen
    fun w hw => (words_spec lowered w hw).2]
  exact List.length_filter_le _ _

/-- A slug is a joining of words whose length is within bounds. -/
theorem isOrganizationSlug_iff {s : JSString} : isOrganizationSlug s = true ↔
    (2 ≤ s.length ∧ s.length ≤ 48) ∧ IsJoined isSlugUnit 45 s := by
  simp [isOrganizationSlug, IsJoined]

/-- **Suggested slugs.**  The project contract accepts every suggestion; the
organisation contract accepts one unless the cut falls behind a hyphen. -/
theorem slugify_accepted_iff (toLowerCase : JSString → JSString) (name : JSString)
    (h : 2 ≤ ((toLowerCase name).filter isSlugUnit).length) :
    isProjectSlug (slugify toLowerCase name) = true ∧
    (isOrganizationSlug (slugify toLowerCase name) = true ↔
      ¬ CutsAt (words isSlugUnit (toLowerCase name)) 48) := by
  have hlong := length_filter_le (toLowerCase name)
  have hlength : 2 ≤ (slugify toLowerCase name).length ∧
      (slugify toLowerCase name).length ≤ 48 := by
    rw [slugify, List.length_take]
    omega
  have hwords : ∀ w ∈ words isSlugUnit (toLowerCase name),
      w ≠ [] ∧ ∀ u ∈ w, isSlugUnit u = true := words_spec _
  constructor
  · rw [isProjectSlug, Bool.and_eq_true, decide_eq_true_eq]
    refine ⟨hlength, List.all_eq_true.mpr ?_⟩
    intro u hu
    have hmem : u ∈ hyphenated (toLowerCase name) := List.mem_of_mem_take hu
    rw [hyphenated_eq] at hmem
    rcases mem_joined (fun w hw => (hwords w hw).2) u hmem with hkept | rfl
    · rw [hkept, Bool.true_or]
    · decide
  · have hne : words isSlugUnit (toLowerCase name) ≠ [] := by
      intro hnone
      rw [hyphenated_eq, hnone, joined_nil, List.length_nil] at hlong
      omega
    rw [isOrganizationSlug_iff, slugify, hyphenated_eq,
      isJoined_take_iff isSlugUnit_hyphen hne hwords (by decide)]
    rw [slugify, hyphenated_eq] at hlength
    exact and_iff_right hlength

/-- A name of one short word is cut nowhere near a hyphen, so its slug passes. -/
theorem slugify_acme : isOrganizationSlug (slugify asciiLowerCase (str "Acme")) = true := by
  apply (slugify_accepted_iff asciiLowerCase (str "Acme") (by decide)).2.mpr
  intro h
  obtain ⟨k, hpos, hlt, -⟩ := h
  have hone : (words isSlugUnit (asciiLowerCase (str "Acme"))).length = 1 := by decide
  omega

/-- A name of 49 characters, the space its 48th. -/
def spacedName : JSString := List.replicate 47 97 ++ [32, 98]

/-- Both contracts accept the name, and the organisation's refuses what is suggested for it. -/
theorem spacedName_refused :
    (2 ≤ spacedName.length ∧ spacedName.length ≤ 64) ∧
    2 ≤ ((asciiLowerCase spacedName).filter isSlugUnit).length ∧
    isOrganizationSlug (slugify asciiLowerCase spacedName) = false := by
  decide

end Guardrail
