import Mathlib.Data.List.Perm.Basic
import Mathlib.Order.Lattice

/-!
# Keeping the highest of a list

A left fold that replaces what it holds only by something strictly higher.  It
ends with an element that nothing outranks, the earliest such one.  Where no two
candidates share a rank, that element is determined by which candidates there
are: their order and their repetition do not matter, and a list may be cut
anywhere.

Beside the fold, a ladder: named rungs in the order of their ranks, where what
follows a name is the lowest rung above it.
-/

namespace Ranked

variable {α ι : Type*} [LinearOrder ι] (rank : α → ι)

/-- Keep the incumbent unless the challenger is strictly higher. -/
def higher (best challenger : α) : α := if rank challenger > rank best then challenger else best

/-- The fold of `higher` from a first incumbent. -/
def highest (start : α) (xs : List α) : α := xs.foldl (higher rank) start

/-- The higher of two has for its rank the greater of their ranks. -/
theorem rank_higher (a b : α) : rank (higher rank a b) = max (rank a) (rank b) := by
  unfold higher
  by_cases h : rank b > rank a
  · rw [if_pos h, max_eq_right h.le]
  · rw [if_neg h, max_eq_left (not_lt.mp h)]

/-- The higher of two is one of them, the first where they tie. -/
theorem higher_eq (a b : α) : higher rank a b = a ∨ higher rank a b = b := by
  unfold higher
  by_cases h : rank b > rank a
  · exact .inr (if_pos h)
  · exact .inl (if_neg h)

variable {rank}

/-- The choice goes on through the list from the higher of the first two. -/
@[simp] theorem highest_cons (start x : α) (xs : List α) :
    highest rank start (x :: xs) = highest rank (higher rank start x) xs := rfl

/-- The result of the fold is one of the candidates, the first included. -/
theorem highest_mem (start : α) (xs : List α) : highest rank start xs ∈ start :: xs := by
  induction xs generalizing start with
  | nil => exact List.mem_cons_self
  | cons x xs ih =>
      have hmem := ih (higher rank start x)
      rcases higher_eq rank start x with h | h
      · rw [highest_cons, h]
        rw [h] at hmem
        exact List.cons_subset_cons start (List.subset_cons_self x xs) hmem
      · rw [highest_cons, h]
        rw [h] at hmem
        exact List.mem_cons_of_mem _ hmem

theorem rank_le_highest (start : α) (xs : List α) :
    ∀ x ∈ start :: xs, rank x ≤ rank (highest rank start xs) := by
  induction xs generalizing start with
  | nil =>
      intro x hx
      rw [List.mem_singleton.mp hx]
      exact le_rfl
  | cons y ys ih =>
      intro x hx
      have htop : rank (higher rank start y) ≤ rank (highest rank start (y :: ys)) :=
        ih _ _ List.mem_cons_self
      rw [rank_higher rank] at htop
      rcases List.mem_cons.mp hx with rfl | hx
      · exact (le_max_left _ _).trans htop
      · rcases List.mem_cons.mp hx with rfl | hx
        · exact (le_max_right _ _).trans htop
        · exact ih _ x (List.mem_cons_of_mem _ hx)

/-! ## Distinct ranks -/

/-- **The highest.**  Where ranks tell the candidates apart, the fold gives the
one candidate that nothing outranks. -/
theorem highest_eq_iff {start : α} {xs : List α}
    (hinj : ∀ a ∈ start :: xs, ∀ b ∈ start :: xs, rank a = rank b → a = b) {a : α} :
    highest rank start xs = a ↔ a ∈ start :: xs ∧ ∀ x ∈ start :: xs, rank x ≤ rank a := by
  constructor
  · rintro rfl
    exact ⟨highest_mem start xs, rank_le_highest start xs⟩
  · intro h
    obtain ⟨hmem, htop⟩ := h
    apply hinj _ (highest_mem start xs) a hmem
    exact le_antisymm (htop _ (highest_mem start xs)) (rank_le_highest start xs a hmem)

theorem highest_congr {start : α} {xs ys : List α}
    (hinj : ∀ a ∈ start :: xs, ∀ b ∈ start :: xs, rank a = rank b → a = b)
    (h : ∀ x, x ∈ xs ↔ x ∈ ys) : highest rank start xs = highest rank start ys := by
  have hcons : ∀ x, x ∈ start :: xs ↔ x ∈ start :: ys := by
    intro x
    rw [List.mem_cons, List.mem_cons, h]
  apply (highest_eq_iff hinj).mpr
  constructor
  · exact (hcons _).mpr (highest_mem start ys)
  · intro x hx
    exact rank_le_highest start ys x ((hcons x).mp hx)

/-- **A join.**  The highest of two lists is the higher of their highest. -/
theorem highest_append_eq (hinj : Function.Injective rank) (start : α) (xs ys : List α) :
    highest rank start (xs ++ ys) =
      higher rank (highest rank start xs) (highest rank start ys) := by
  apply (highest_eq_iff fun a _ b _ h => hinj h).mpr
  constructor
  · rcases higher_eq rank (highest rank start xs) (highest rank start ys) with h | h
    · rw [h]
      exact List.cons_subset_cons start (List.subset_append_left xs ys) (highest_mem start xs)
    · rw [h]
      exact List.cons_subset_cons start (List.subset_append_right xs ys) (highest_mem start ys)
  · intro x hx
    rw [rank_higher rank]
    rcases List.mem_cons.mp hx with rfl | hx
    · exact (rank_le_highest x xs x List.mem_cons_self).trans (le_max_left _ _)
    · rcases List.mem_append.mp hx with hx | hx
      · exact (rank_le_highest start xs x (List.mem_cons_of_mem _ hx)).trans (le_max_left _ _)
      · exact (rank_le_highest start ys x (List.mem_cons_of_mem _ hx)).trans (le_max_right _ _)

/-! ## The next rung -/

section Rungs

variable {κ β : Type*} [BEq κ] [LawfulBEq κ] {rank : κ × β → ι} {rungs : List (κ × β)} {rung : κ × β}

/-- Up to the first rung of a name, no rung has it. -/
theorem exists_front (hmem : rung ∈ rungs) (hnodup : (rungs.map Prod.fst).Nodup) :
    ∃ front back, rungs = front ++ rung :: back ∧
      rungs.dropWhile (fun other => other.1 != rung.1) = rung :: back := by
  obtain ⟨front, back, rfl⟩ := List.append_of_mem hmem
  refine ⟨front, back, rfl, ?_⟩
  have hfront : ∀ other ∈ front, (other.1 != rung.1) = true := by
    intro other hother
    rw [List.map_append, List.map_cons] at hnodup
    have hapart := (List.nodup_append.mp hnodup).2.2
    rw [bne_iff_ne]
    exact hapart _ (List.mem_map_of_mem hother) _ List.mem_cons_self
  rw [List.dropWhile_append_of_pos hfront, List.dropWhile_cons_of_neg]
  simp

/-- **The next rung** of a ladder is the lowest one above, if any is above. -/
theorem nextRung_spec (hsorted : rungs.Pairwise fun a b => rank a ≤ rank b)
    (hranks : (rungs.map rank).Nodup) (hnodup : (rungs.map Prod.fst).Nodup) (hmem : rung ∈ rungs) :
    let next := ((rungs.dropWhile fun other => other.1 != rung.1).drop 1).head?
    (next = none → ∀ other ∈ rungs, rank other ≤ rank rung) ∧
      ∀ found, next = some found → found ∈ rungs ∧ rank rung < rank found ∧
        ∀ other ∈ rungs, rank rung < rank other → rank found ≤ rank other := by
  obtain ⟨front, back, rfl, hdrop⟩ := exists_front hmem hnodup
  rw [hdrop, List.drop_one, List.tail_cons]
  obtain ⟨-, hback, hcross⟩ := List.pairwise_append.mp hsorted
  obtain ⟨habove, hback⟩ := List.pairwise_cons.mp hback
  have hbelow : ∀ other ∈ front, rank other ≤ rank rung :=
    fun other hother => hcross other hother rung List.mem_cons_self
  constructor
  · intro hnone other hother
    rw [List.head?_eq_none_iff.mp hnone] at hother
    rcases List.mem_append.mp hother with hother | hother
    · exact hbelow other hother
    · rw [List.mem_singleton.mp hother]
  · intro found hfound
    cases back with
    | nil => cases hfound
    | cons next back =>
        obtain rfl := Option.some.inj hfound
        have hnew : rank rung ≠ rank next := by
          rw [List.map_append, List.map_cons, List.map_cons] at hranks
          have htail := (List.nodup_append.mp hranks).2.1
          intro hsame
          exact (List.nodup_cons.mp htail).1 (hsame ▸ List.mem_cons_self)
        refine ⟨by simp, lt_of_le_of_ne (habove next List.mem_cons_self) hnew, ?_⟩
        intro other hother hhigher
        rcases List.mem_append.mp hother with hother | hother
        · exact absurd (hbelow other hother) (not_le.mpr hhigher)
        · rcases List.mem_cons.mp hother with rfl | hother
          · exact absurd hhigher (lt_irrefl _)
          · rcases List.mem_cons.mp hother with rfl | hother
            · exact le_refl _
            · exact (List.pairwise_cons.mp hback).1 other hother

end Rungs

end Ranked
