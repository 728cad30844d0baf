import Mathlib.Logic.Basic
import Mathlib.Order.Basic

/-!
# Hopping from place to place

A place answers with another place to go to, or lets the traveller stay.  What
it answers may depend on the world at that moment, and the world may be another
at every hop.

A rank that every hop lowers bounds the journey, whatever the worlds are.  One
that every hop raises by the least it can passes nothing on the way.  Where two
places send the traveller to each other, some worlds keep it travelling for ever.
-/

namespace Hops

variable {ω α : Type*} (next : ω → α → Option α)

/-- Where the traveller is after `n` hops from `a`, if it still hops. -/
def after (worlds : ℕ → ω) (a : α) : ℕ → Option α
  | 0 => some a
  | n + 1 => (after worlds a n).bind (next (worlds n))

variable {next} {worlds : ℕ → ω} {a b : α} {n m : ℕ}

/-- One more hop is a step from where the hops before have led. -/
theorem after_succ_of_some (h : after next worlds a n = some b) :
    after next worlds a (n + 1) = next (worlds n) b := by
  rw [after, h, Option.bind_some]

/-- A journey is its first hop and then the journey from where that hop leads. -/
theorem after_succ_of_next (h : next (worlds 0) a = some b) :
    after next worlds a (n + 1) = after next (fun k => worlds (k + 1)) b n := by
  induction n with
  | zero => exact h
  | succ n ih => rw [after, ih, after]

/-- A journey that is over after some hops is over after any larger number of them. -/
theorem after_none_of_le (h : after next worlds a n = none) (hle : n ≤ m) :
    after next worlds a m = none := by
  induction hle with
  | refl => exact h
  | step _ ih => rw [after, ih, Option.bind_none]

/-- **The bound.**  Among places that lead to each other only, a rank that each hop
lowers is the most hops there are. -/
theorem after_none_of_rank {Place : α → Prop} (rank : α → ℕ)
    (hdrop : ∀ w a b, Place a → next w a = some b → Place b ∧ rank b < rank a) (ha : Place a) :
    after next worlds a (rank a + 1) = none := by
  have hspent : ∀ n b, after next worlds a n = some b → Place b ∧ rank b + n ≤ rank a := by
    intro n
    induction n with
    | zero =>
        intro b h
        rw [← Option.some.inj h]
        exact ⟨ha, Nat.le_refl _⟩
    | succ n ih =>
        intro b h
        obtain ⟨c, hc, hnext⟩ := Option.bind_eq_some_iff.mp h
        obtain ⟨hplace, hsofar⟩ := ih c hc
        obtain ⟨hnextPlace, hlow⟩ := hdrop _ _ _ hplace hnext
        exact ⟨hnextPlace, by omega⟩
  cases hafter : after next worlds a (rank a + 1) with
  | none => rfl
  | some b =>
      have := (hspent _ b hafter).2
      omega

/-- A journey that ends, ends at a place that lets the traveller stay. -/
theorem last_of_after_none (h : after next worlds a n = none) :
    ∃ m < n, ∃ b, after next worlds a m = some b ∧ next (worlds m) b = none := by
  induction n with
  | zero => cases h
  | succ n ih =>
      cases hafter : after next worlds a n with
      | none =>
          obtain ⟨m, hm, hlast⟩ := ih hafter
          exact ⟨m, by omega, hlast⟩
      | some b =>
          rw [after_succ_of_some hafter] at h
          exact ⟨n, by omega, b, hafter, h⟩

/-- **No place is skipped.**  Where each hop leads to the lowest place above, the
traveller never gets past a place that would have let it stay. -/
theorem rank_le_of_stays {ι : Type*} [PartialOrder ι] {rank : α → ι} {Place Stays : α → Prop}
    (hinj : ∀ a b, Place a → Place b → rank a = rank b → a = b)
    (hhop : ∀ w a b, Place a → next w a = some b → ¬ Stays a ∧ Place b ∧ rank a < rank b ∧
      ∀ c, Place c → rank a < rank c → rank b ≤ rank c)
    (ha : Place a) (h : after next worlds a n = some b) :
    Place b ∧ rank a ≤ rank b ∧ ∀ c, Place c → rank a ≤ rank c → Stays c → rank b ≤ rank c := by
  induction n generalizing b with
  | zero =>
      obtain rfl := Option.some.inj h
      exact ⟨ha, le_refl _, fun _ _ hle _ => hle⟩
  | succ n ih =>
      obtain ⟨last, hlast, hnext⟩ := Option.bind_eq_some_iff.mp h
      obtain ⟨hplace, hfrom, hbelow⟩ := ih hlast
      obtain ⟨hleft, hplace', hup, hleast⟩ := hhop _ _ _ hplace hnext
      refine ⟨hplace', hfrom.trans hup.le, ?_⟩
      intro c hc hle hstays
      have hpast := hbelow c hc hle hstays
      rcases lt_or_eq_of_le hpast with hlt | heq
      · exact hleast c hc hlt
      · obtain rfl := hinj _ _ hplace hc heq
        exact absurd hstays hleft

/-- Two places that send the traveller to each other keep it for ever. -/
theorem endless_of_exchange {v w : ω} (hab : next v a = some b) (hba : next w b = some a) :
    ∃ worlds : ℕ → ω, ∀ n, after next worlds a n ≠ none := by
  let worlds : ℕ → ω := fun n => if n % 2 = 0 then v else w
  have hplace : ∀ n, after next worlds a n = some (if n % 2 = 0 then a else b) := by
    intro n
    induction n with
    | zero => rfl
    | succ n ih =>
        rw [after_succ_of_some ih]
        by_cases hn : n % 2 = 0
        · rw [if_pos hn, if_neg (by omega)]
          simp only [worlds, if_pos hn, hab]
        · rw [if_neg hn, if_pos (by omega)]
          simp only [worlds, if_neg hn, hba]
  refine ⟨worlds, ?_⟩
  intro n h
  rw [hplace n] at h
  cases h

end Hops
