import Mathlib.Algebra.Order.Ring.Int
import Mathlib.Data.List.Count
import Mathlib.Tactic.Linarith

/-!
# Counting in fixed windows

A fixed-window counter numbers the items of a window in the order they are
counted, newest first in the lists here.  Among numbered items as many have a
number up to `m` as there are items, `m` at most.

Windows of one width do not overlap, so an interval of that width meets at most
two of them: a bound for every window is twice that bound for every interval.
-/

namespace FixedWindow

variable {γ β : Type*}

/-! ## Numbered items -/

/-- The items carry the numbers they were counted under. -/
def Numbered (position : γ → ℕ) : List γ → Prop
  | [] => True
  | item :: items => position item = items.length + 1 ∧ Numbered position items

variable {position : γ → ℕ} {items : List γ}

/-- The places that were given out are no more than the items. -/
theorem Numbered.le_length (h : Numbered position items) :
    ∀ item ∈ items, position item ≤ items.length := by
  induction items with
  | nil => simp
  | cons newest items ih =>
      intro item hitem
      rw [List.length_cons]
      rcases List.mem_cons.mp hitem with rfl | hitem
      · exact h.1.le
      · exact (ih h.2 item hitem).trans (Nat.le_succ _)

/-- Of items that are numbered from one, those with a number up to `m` are `m`, or all there
are. -/
theorem Numbered.countP_le_eq (h : Numbered position items) (m : ℕ) :
    items.countP (fun item => position item ≤ m) = min items.length m := by
  induction items with
  | nil => simp
  | cons newest items ih =>
      have hrest := ih h.2
      have hnewest := h.1
      by_cases hm : position newest ≤ m
      · rw [List.countP_cons_of_pos (by simpa using hm), List.length_cons, hrest]
        omega
      · rw [List.countP_cons_of_neg (by simpa using hm), List.length_cons, hrest]
        omega

/-- What only the first `m` items have, at most `m` items have. -/
theorem Numbered.countP_le (h : Numbered position items) {p : γ → Bool} {m : ℕ}
    (hp : ∀ item ∈ items, p item = true → position item ≤ m) : items.countP p ≤ m := by
  calc items.countP p
      ≤ items.countP (fun item => position item ≤ m) := by
        apply List.countP_mono_left
        intro item hitem hpitem
        simpa using hp item hitem hpitem
    _ = min items.length m := h.countP_le_eq m
    _ ≤ m := Nat.min_le_right _ _

/-- Of items numbered from one, those among the first `m` are `m`, or all where there are
fewer. -/
theorem Numbered.countP_eq (h : Numbered position items) {p : γ → Bool} {m : ℕ}
    (hp : ∀ item ∈ items, p item = true ↔ position item ≤ m) :
    items.countP p = min items.length m := by
  rw [← h.countP_le_eq m]
  apply List.countP_congr
  intro item hitem
  simpa using hp item hitem

/-! ## Windows of one width -/

/-- Every item lies in its window, and two windows do not overlap. -/
structure Windows (window : γ → β) (time : γ → ℤ) (opens : β → ℤ) (width : ℤ) (items : List γ) :
    Prop where
  inside : ∀ item ∈ items, opens (window item) ≤ time item ∧
    time item < opens (window item) + width
  apart : ∀ item ∈ items, ∀ other ∈ items, window item ≠ window other →
    opens (window item) + width ≤ opens (window other) ∨
      opens (window other) + width ≤ opens (window item)

variable {window : γ → β} {time : γ → ℤ} {opens : β → ℤ} {width : ℤ}

/-- An interval as wide as the windows never meets three of them: two of the three are one
window. -/
theorem Windows.not_three (h : Windows window time opens width items) {a : ℤ} {x y z : γ}
    (hx : x ∈ items) (hy : y ∈ items) (hz : z ∈ items)
    (hxin : a ≤ time x ∧ time x < a + width) (hyin : a ≤ time y ∧ time y < a + width)
    (hzin : a ≤ time z ∧ time z < a + width) (hxy : window x ≠ window y)
    (hxz : window x ≠ window z) : window z = window y := by
  by_contra hzy
  have hxw := h.inside x hx
  have hyw := h.inside y hy
  have hzw := h.inside z hz
  have hxyw := h.apart x hx y hy hxy
  have hxzw := h.apart x hx z hz hxz
  have hzyw := h.apart z hz y hy hzy
  omega

/-- What has one of two properties is counted by one of them. -/
theorem countP_or_le (p q : γ → Bool) (items : List γ) :
    items.countP (fun x => p x || q x) ≤ items.countP p + items.countP q := by
  induction items with
  | nil => simp
  | cons item items ih =>
      simp only [List.countP_cons]
      cases p item <;> cases q item <;> simp <;> omega

/-- **Twice the allowance.**  What at most `m` items of every window have, at
most `2 * m` items of an interval have. -/
theorem Windows.countP_interval_le [DecidableEq β] (h : Windows window time opens width items)
    {p : γ → Bool} {m : ℕ} (hwindow : ∀ b, items.countP (fun x => p x && window x = b) ≤ m)
    (a : ℤ) :
    items.countP (fun x => p x && (a ≤ time x && time x < a + width)) ≤ 2 * m := by
  by_cases hany : ∃ x ∈ items, a ≤ time x ∧ time x < a + width
  · obtain ⟨x, hx, hxin⟩ := hany
    by_cases hother : ∃ y ∈ items, (a ≤ time y ∧ time y < a + width) ∧ window x ≠ window y
    · obtain ⟨y, hy, hyin, hxy⟩ := hother
      have hsplit : items.countP (fun z => p z && (a ≤ time z && time z < a + width)) ≤
          items.countP (fun z => (p z && window z = window x) || (p z && window z = window y)) := by
        apply List.countP_mono_left
        intro z hz hzp
        simp only [Bool.and_eq_true, decide_eq_true_eq] at hzp
        by_cases hxz : window x = window z
        · simp [hzp.1, hxz]
        · simp [hzp.1, h.not_three hx hy hz hxin hyin hzp.2 hxy hxz]
      have hsum := countP_or_le (fun z => p z && decide (window z = window x))
        (fun z => p z && decide (window z = window y)) items
      have hfirst := hwindow (window x)
      have hsecond := hwindow (window y)
      omega
    · have hone : items.countP (fun z => p z && (a ≤ time z && time z < a + width)) ≤
          items.countP (fun z => p z && window z = window x) := by
        apply List.countP_mono_left
        intro z hz hzp
        simp only [Bool.and_eq_true, decide_eq_true_eq] at hzp ⊢
        refine ⟨hzp.1, ?_⟩
        by_contra hne
        exact hother ⟨z, hz, hzp.2, Ne.symm hne⟩
      have hfirst := hwindow (window x)
      omega
  · have hnone : items.countP (fun z => p z && (a ≤ time z && time z < a + width)) = 0 := by
      apply List.countP_eq_zero.mpr
      intro z hz hzp
      simp only [Bool.and_eq_true, decide_eq_true_eq] at hzp
      exact hany ⟨z, hz, hzp.2⟩
    omega

end FixedWindow
