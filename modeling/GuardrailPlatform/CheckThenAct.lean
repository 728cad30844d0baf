import GuardrailPlatform.Interleaving

/-!
# Check, then act

A program looks for something in the store and, where it does not find it,
makes one more call, which adds to a measure of the store.  Nothing holds the
two calls together.

Of any number of such programs, run among any others, at most one adds, as long
as none looks in vain where one of them has added already or stands between its
two calls (`Shared.gained_le_one`).
-/

namespace Storage

variable {σ ε α ι : Type}

namespace Program

/-- No call is left. -/
def Ended : Program σ ε α → Prop
  | .done _ => True
  | .call _ _ => False

instance (p : Program σ ε α) : Decidable p.Ended :=
  match p with
  | .done _ => isTrue trivial
  | .call _ _ => isFalse id

/-- At most one call is left, and it adds at most one. -/
def ActsOnce (measure : σ → ℕ) : Program σ ε α → Prop
  | .done _ => True
  | .call statement next =>
    (∀ s b t, statement s = some (b, t) → measure t ≤ measure s + 1) ∧ ∀ b, (next b).Ended

/-- The first call adds nothing.  It is the last where it finds what it looks
for, and at most one call follows it elsewhere. -/
def LooksFirst (found : σ → Prop) (measure : σ → ℕ) : Program σ ε α → Prop
  | .done _ => True
  | .call statement next => ∀ s b t, statement s = some (b, t) →
    measure t = measure s ∧ (found s → (next b).Ended) ∧ (next b).ActsOnce measure

variable {p : Program σ ε α} {found : σ → Prop} {measure : σ → ℕ}

/-- A program that has ended makes no further call, so a turn of it changes neither program
nor store. -/
theorem Ended.advance (h : p.Ended) (fault : Option Fault) (s : σ) : p.advance fault s = (p, s) := by
  cases p with
  | done outcome => rfl
  | call statement next => exact h.elim

/-- A program that has ended acts no more, so it acts once at the most. -/
theorem Ended.actsOnce (h : p.Ended) : p.ActsOnce measure := by
  cases p with
  | done outcome => trivial
  | call statement next => exact h.elim

/-- A fault ends a program: its call has no answer, and nothing stands behind it. -/
theorem ended_advance_of_fault (p : Program σ ε α) (fault : Fault) (s : σ) :
    (p.advance (some fault) s).1.Ended := by
  cases p with
  | done outcome => trivial
  | call statement next => cases fault <;> trivial

theorem ActsOnce.advance (h : p.ActsOnce measure) (fault : Option Fault) (s : σ) :
    (p.advance fault s).1.Ended ∧ measure (p.advance fault s).2 ≤ measure s + 1 := by
  cases p with
  | done outcome => exact ⟨trivial, Nat.le_succ _⟩
  | call statement next =>
      rcases advance_call statement next fault s with hsame | ⟨b, t, hstatement, hended | hnext⟩
      · rw [hsame]
        exact ⟨trivial, Nat.le_succ _⟩
      · rw [hended]
        exact ⟨trivial, h.1 s b t hstatement⟩
      · rw [hnext]
        exact ⟨h.2 b, h.1 s b t hstatement⟩

/-- A look adds nothing, and only one that finds nothing leaves a call. -/
theorem LooksFirst.advance (h : p.LooksFirst found measure) (fault : Option Fault) (s : σ) :
    measure (p.advance fault s).2 = measure s ∧ (p.advance fault s).1.ActsOnce measure ∧
      (¬ (p.advance fault s).1.Ended → fault = none ∧ ¬ found s) := by
  cases p with
  | done outcome => exact ⟨rfl, trivial, fun hended => (hended trivial).elim⟩
  | call statement next =>
      rcases advance_call statement next fault s with hsame | ⟨b, t, hstatement, hended | hnext⟩
      · rw [hsame]
        exact ⟨rfl, trivial, fun hended => (hended trivial).elim⟩
      · rw [hended]
        exact ⟨(h s b t hstatement).1, trivial, fun hended => (hended trivial).elim⟩
      · obtain ⟨hmeasure, hfound, hacts⟩ := h s b t hstatement
        have hfault : ¬ (next b).Ended → fault = none := by
          intro hended
          cases fault with
          | none => rfl
          | some fault =>
              have hcrashed := ended_advance_of_fault (call statement next) fault s
              rw [hnext] at hcrashed
              exact (hended hcrashed).elim
        rw [hnext]
        exact ⟨hmeasure, hacts, fun hended => ⟨hfault hended, fun hs => hended (hfound hs)⟩⟩

end Program

namespace Shared

/-- The program has had a turn. -/
def Begun (turns : List (Turn ι)) (i : ι) : Prop := ∃ turn ∈ turns, turn.thread = i

theorem begun_cons_self {earlier : List (Turn ι)} {turn : Turn ι} :
    Begun (turn :: earlier) turn.thread := ⟨turn, List.mem_cons_self, rfl⟩

theorem begun_cons_of_ne {earlier : List (Turn ι)} {turn : Turn ι} {i : ι} (h : i ≠ turn.thread) :
    Begun (turn :: earlier) i ↔ Begun earlier i := by
  constructor
  · intro hbegun
    obtain ⟨other, hother, rfl⟩ := hbegun
    rcases List.mem_cons.mp hother with rfl | hother
    · exact (h rfl).elim
    · exact ⟨other, hother, rfl⟩
  · intro hbegun
    obtain ⟨other, hother, hthread⟩ := hbegun
    exact ⟨other, List.mem_cons_of_mem _ hother, hthread⟩

variable [DecidableEq ι] (start : Shared ι σ ε α) (found : σ → Prop) (measure : σ → ℕ)
  (mine : ι → Prop) [DecidablePred mine]

/-- What the turns of some of the programs have added to the measure. -/
def gained : List (Turn ι) → ℕ
  | [] => 0
  | turn :: earlier =>
    gained earlier +
      if mine turn.thread then
        measure (start.after (turn :: earlier)).store - measure (start.after earlier).store
      else 0

/-- The program has had a turn, and has a call left. -/
def UnderWay (turns : List (Turn ι)) (i : ι) : Prop :=
  Begun turns i ∧ ¬ ((start.after turns).threads i).Ended

/-- Where one of the programs looks in vain, none of them has added, and none
stands between its two calls. -/
def LooksInTime (earlier : List (Turn ι)) (turn : Turn ι) : Prop :=
  mine turn.thread → ¬ Begun earlier turn.thread → turn.fault = none →
    ¬ found (start.after earlier).store →
    start.gained measure mine earlier = 0 ∧ ∀ i, mine i → ¬ start.UnderWay earlier i

variable {start found measure mine} {turns earlier : List (Turn ι)} {turn : Turn ι} {i : ι}

/-- A turn of one program leaves the others under way exactly where they were. -/
theorem underWay_cons_of_ne (h : i ≠ turn.thread) :
    start.UnderWay (turn :: earlier) i ↔ start.UnderWay earlier i := by
  rw [UnderWay, UnderWay, begun_cons_of_ne h, after, take_threads_of_ne _ h]

/-- A thread that has had no turn stands where it started, whatever the others did. -/
theorem threads_of_not_begun (h : ¬ Begun turns i) :
    (start.after turns).threads i = start.threads i := by
  induction turns with
  | nil => rfl
  | cons turn earlier ih =>
      by_cases hi : i = turn.thread
      · exact (h (hi ▸ begun_cons_self)).elim
      · rw [after, take_threads_of_ne _ hi]
        exact ih fun hbegun => h ((begun_cons_of_ne hi).mpr hbegun)

/-- Another's turn adds nothing to what the threads in question have gained. -/
theorem gained_cons_of_not (h : ¬ mine turn.thread) :
    start.gained measure mine (turn :: earlier) = start.gained measure mine earlier := by
  rw [gained, if_neg h, Nat.add_zero]

omit [DecidablePred mine] in
/-- A program that has looked has at most its one call left. -/
theorem actsOnce_of_begun (hmine : ∀ i, mine i → (start.threads i).LooksFirst found measure)
    (hi : mine i) (h : Begun turns i) : ((start.after turns).threads i).ActsOnce measure := by
  induction turns with
  | nil =>
      obtain ⟨turn, hturn, -⟩ := h
      cases hturn
  | cons turn earlier ih =>
      by_cases hthread : i = turn.thread
      · subst hthread
        rw [after, take_threads_self]
        by_cases hbegun : Begun earlier turn.thread
        · exact ((ih hbegun).advance _ _).1.actsOnce
        · rw [threads_of_not_begun hbegun]
          exact ((hmine _ hi).advance _ _).2.1
      · rw [after, take_threads_of_ne _ hthread]
        exact ih ((begun_cons_of_ne hthread).mp h)

/-- At most one is between its calls, and only before any has added. -/
structure Sole (start : Shared ι σ ε α) (measure : σ → ℕ) (mine : ι → Prop) [DecidablePred mine]
    (turns : List (Turn ι)) : Prop where
  added : start.gained measure mine turns ≤ 1
  before : ∀ i, mine i → start.UnderWay turns i → start.gained measure mine turns = 0
  sole : ∀ i j, mine i → mine j → start.UnderWay turns i → start.UnderWay turns j → i = j

theorem Sole.other (h : start.Sole measure mine earlier) (hturn : ¬ mine turn.thread) :
    start.Sole measure mine (turn :: earlier) := by
  have hgained := @gained_cons_of_not σ ε α ι _ start measure mine _ earlier turn hturn
  have hwas : ∀ i, mine i → start.UnderWay (turn :: earlier) i → start.UnderWay earlier i := by
    intro i hi hway
    have hne : i ≠ turn.thread := fun hthread => hturn (hthread ▸ hi)
    exact (underWay_cons_of_ne hne).mp hway
  constructor
  · rw [hgained]
    exact h.added
  · intro i hi hway
    rw [hgained]
    exact h.before i hi (hwas i hi hway)
  · intro i j hi hj hwayI hwayJ
    exact h.sole i j hi hj (hwas i hi hwayI) (hwas j hj hwayJ)

/-- A turn after which its program is no longer between its calls, given what was gained by
then. -/
theorem Sole.ended (h : start.Sole measure mine earlier)
    (hended : ¬ start.UnderWay (turn :: earlier) turn.thread)
    (hgained : start.gained measure mine (turn :: earlier) ≤ 1)
    (hbefore : ∀ i, mine i → i ≠ turn.thread → start.UnderWay earlier i →
      start.gained measure mine (turn :: earlier) = 0) :
    start.Sole measure mine (turn :: earlier) := by
  have hwas : ∀ i, start.UnderWay (turn :: earlier) i →
      i ≠ turn.thread ∧ start.UnderWay earlier i := by
    intro i hway
    have hne : i ≠ turn.thread := fun hthread => hended (hthread ▸ hway)
    exact ⟨hne, (underWay_cons_of_ne hne).mp hway⟩
  refine ⟨hgained, ?_, ?_⟩
  · intro i hi hway
    exact hbefore i hi (hwas i hway).1 (hwas i hway).2
  · intro i j hi hj hwayI hwayJ
    exact h.sole i j hi hj (hwas i hwayI).2 (hwas j hwayJ).2

/-- The first turn of one of the programs is its look, and the invariant survives it if the
look is in time. -/
theorem Sole.look (h : start.Sole measure mine earlier)
    (hmine : ∀ i, mine i → (start.threads i).LooksFirst found measure) (hturn : mine turn.thread)
    (hbegun : ¬ Begun earlier turn.thread)
    (htimely : start.LooksInTime found measure mine earlier turn) :
    start.Sole measure mine (turn :: earlier) := by
  obtain ⟨hmeasure, -, hleft⟩ :=
    (hmine _ hturn).advance turn.fault (start.after earlier).store
  have hgained : start.gained measure mine (turn :: earlier) =
      start.gained measure mine earlier := by
    rw [gained, if_pos hturn, after, take, threads_of_not_begun hbegun]
    dsimp only
    rw [hmeasure, Nat.sub_self, Nat.add_zero]
  by_cases hway : start.UnderWay (turn :: earlier) turn.thread
  · have hnotEnded := hway.2
    rw [after, take_threads_self, threads_of_not_begun hbegun] at hnotEnded
    obtain ⟨hfault, hvain⟩ := hleft hnotEnded
    obtain ⟨hnone, hclear⟩ := htimely hturn hbegun hfault hvain
    have honly : ∀ i, mine i → start.UnderWay (turn :: earlier) i → i = turn.thread := by
      intro i hi hwayI
      by_contra hne
      exact hclear i hi ((underWay_cons_of_ne hne).mp hwayI)
    refine ⟨?_, ?_, ?_⟩
    · rw [hgained, hnone]
      exact Nat.zero_le 1
    · intro i _ _
      rw [hgained, hnone]
    · intro i j hi hj hwayI hwayJ
      rw [honly i hi hwayI, honly j hj hwayJ]
  · refine h.ended hway (hgained.symm ▸ h.added) ?_
    intro i hi _ hwayI
    rw [hgained]
    exact h.before i hi hwayI

/-- A later turn of a program that has looked acts once at the most, and that keeps the
invariant. -/
theorem Sole.act (h : start.Sole measure mine earlier)
    (hmine : ∀ i, mine i → (start.threads i).LooksFirst found measure) (hturn : mine turn.thread)
    (hbegun : Begun earlier turn.thread) : start.Sole measure mine (turn :: earlier) := by
  have hacts := actsOnce_of_begun hmine hturn hbegun
  obtain ⟨hended, hmeasure⟩ := hacts.advance turn.fault (start.after earlier).store
  have hover : ¬ start.UnderWay (turn :: earlier) turn.thread := by
    intro hway
    have hnotEnded := hway.2
    rw [after, take_threads_self] at hnotEnded
    exact hnotEnded hended
  by_cases hwas : ((start.after earlier).threads turn.thread).Ended
  · have hgained : start.gained measure mine (turn :: earlier) =
        start.gained measure mine earlier := by
      rw [gained, if_pos hturn, after, take, hwas.advance]
      dsimp only
      rw [Nat.sub_self, Nat.add_zero]
    refine h.ended hover (hgained.symm ▸ h.added) ?_
    intro i hi _ hwayI
    rw [hgained]
    exact h.before i hi hwayI
  · have hway : start.UnderWay earlier turn.thread := ⟨hbegun, hwas⟩
    have hgained : start.gained measure mine (turn :: earlier) ≤ 1 := by
      rw [gained, if_pos hturn, h.before _ hturn hway, after, take]
      dsimp only
      omega
    refine h.ended hover hgained ?_
    intro i hi hne hwayI
    exact (hne (h.sole i _ hi hturn hwayI hway)).elim

/-- **At most one acts.**  If none of the programs looks in vain where one of
them has added or is about to, they add at most one between them. -/
theorem gained_le_one (hmine : ∀ i, mine i → (start.threads i).LooksFirst found measure)
    (hrun : Trace.Run (start.LooksInTime found measure mine) turns) :
    start.gained measure mine turns ≤ 1 := by
  have hsole : start.Sole measure mine turns := by
    refine hrun.invariant ⟨Nat.zero_le 1, fun _ _ _ => rfl, ?_⟩ ?_
    · intro i j _ _ hway _
      obtain ⟨turn, hturn, -⟩ := hway.1
      cases hturn
    · intro earlier turn _ hinv htimely
      by_cases hturn : mine turn.thread
      · by_cases hbegun : Begun earlier turn.thread
        · exact hinv.act hmine hturn hbegun
        · exact hinv.look hmine hturn hbegun htimely
      · exact hinv.other hturn
  exact hsole.added

end Shared

end Storage
