import GuardrailPlatform.Trace
import Mathlib.Logic.Function.Basic

/-!
# A race for one key

Any number of parties want the same key.  Each looks whether somebody holds it,
and is refused if so; otherwise it takes the key in a second step, which fails
if somebody has taken it in between.

At most one party takes the key.  Nobody fails exactly where no party looks
while another stands between its look and its step (`no_failure_iff`).
-/

namespace KeyRace

inductive Stage
  | waiting
  /-- It has looked in vain. -/
  | passed
  | created
  /-- It has seen the key held. -/
  | refused
  /-- It came too late to take the key. -/
  | failed
deriving DecidableEq

namespace Stage

/-- No step is left. -/
def Over (stage : Stage) : Prop := stage ≠ .waiting ∧ stage ≠ .passed

instance (stage : Stage) : Decidable stage.Over := inferInstanceAs (Decidable (_ ∧ _))

/-- It has looked in vain, at some time. -/
def InVain (stage : Stage) : Prop := stage = .passed ∨ stage = .created ∨ stage = .failed

/-- The stage a step leads to, where the key is held or free. -/
def next (held : Bool) : Stage → Stage
  | .waiting => if held then .refused else .passed
  | .passed => if held then .failed else .created
  | .created => .created
  | .refused => .refused
  | .failed => .failed

/-- A request that is over, with a row or without, makes no more moves. -/
theorem next_over {stage : Stage} (h : stage.Over) (held : Bool) : stage.next held = stage := by
  cases stage with
  | waiting => exact (h.1 rfl).elim
  | passed => exact (h.2 rfl).elim
  | created => rfl
  | refused => rfl
  | failed => rfl

/-- A request inserts exactly where its check has passed and the key is still
free. -/
theorem next_eq_created {stage : Stage} {held : Bool} : stage.next held = .created ↔
    stage = .created ∨ stage = .passed ∧ held = false := by
  cases stage <;> cases held <;> simp [next]

/-- After its first move a request is not waiting any more, whatever the move found. -/
theorem next_ne_waiting (held : Bool) (stage : Stage) : stage.next held ≠ .waiting := by
  cases stage <;> cases held <;> simp [next]

/-- A request that cannot insert any more, having found the key held, stays so. -/
theorem InVain.next {stage : Stage} (h : stage.InVain) (held : Bool) : (stage.next held).InVain := by
  cases stage <;> cases held <;> simp_all [InVain, Stage.next]

end Stage

structure Race (ι : Type) where
  held : Bool
  stage : ι → Stage

variable {ι : Type}

/-- The key is free or held, and nobody has looked. -/
def opening (held : Bool) : Race ι := { held, stage := fun _ => .waiting }

namespace Race

/-- What holds of a race at any time, opened with the key held or free. -/
structure Sound (held : Bool) (race : Race ι) : Prop where
  kept : held = true → race.held = true ∧ ∀ i, race.stage i = .waiting ∨ race.stage i = .refused
  holder : race.held = true → held = true ∨ ∃ i, race.stage i = .created
  holds : ∀ i, race.stage i = .created ∨ race.stage i = .refused ∨ race.stage i = .failed →
    race.held = true
  unique : ∀ i j, race.stage i = .created → race.stage j = .created → i = j

/-- At the opening nobody has moved, so there is nothing to account for. -/
theorem sound_opening (held : Bool) : (opening held : Race ι).Sound held := by
  constructor <;> simp [opening]

variable [DecidableEq ι]

/-- One party takes its next step. -/
def move (race : Race ι) (i : ι) : Race ι :=
  { held := race.held || decide (race.stage i = .passed)
    stage := Function.update race.stage i ((race.stage i).next race.held) }

/-- After the given moves, the newest first. -/
def after (race : Race ι) : List ι → Race ι
  | [] => race
  | i :: earlier => (race.after earlier).move i

/-- A party that looks does so while no other is between its two steps. -/
def Clear (start : Race ι) (earlier : List ι) (i : ι) : Prop :=
  (start.after earlier).stage i = .waiting → ∀ j, (start.after earlier).stage j ≠ .passed

variable {race : Race ι} {i j : ι} {held : Bool} {moves : List ι}

/-- A move changes the stage of the request that makes it, by what the key's state is. -/
theorem move_stage_self (race : Race ι) (i : ι) :
    (race.move i).stage i = (race.stage i).next race.held := Function.update_self _ _ _

/-- A move of one request leaves the stages of the others alone. -/
theorem move_stage_of_ne (race : Race ι) (h : j ≠ i) : (race.move i).stage j = race.stage j :=
  Function.update_of_ne h _ _

/-- The key is held after a move where it was before, or where the move
inserted. -/
theorem move_held : (race.move i).held = true ↔ race.held = true ∨ race.stage i = .passed := by
  simp [move]

/-- A move of its own takes a party on; any other leaves it where it is. -/
theorem move_stage (race : Race ι) (i j : ι) : (race.move i).stage j = race.stage j ∨
    j = i ∧ (race.move i).stage j = (race.stage j).next race.held := by
  by_cases h : j = i
  · subst h
    exact .inr ⟨rfl, move_stage_self race j⟩
  · exact .inl (move_stage_of_ne race h)

theorem stage_eq_waiting_iff :
    ((opening held).after moves).stage i = .waiting ↔ i ∉ moves := by
  induction moves with
  | nil => exact iff_of_true rfl List.not_mem_nil
  | cons mover earlier ih =>
      rw [after, List.mem_cons, not_or]
      by_cases hmoved : i = mover
      · subst hmoved
        rw [move_stage_self]
        exact iff_of_false (Stage.next_ne_waiting _ _) fun h => h.1 rfl
      · rw [move_stage_of_ne _ hmoved, ih, and_iff_right hmoved]

/-! ## Who holds the key -/

theorem created_move (h : race.stage j = .created) : (race.move i).stage j = .created := by
  rcases move_stage race i j with hsame | ⟨-, hnext⟩
  · rw [hsame, h]
  · rw [hnext, h]
    rfl

/-- A request has just inserted only by its own move, and where the key was
free. -/
theorem created_of_move (h : (race.move i).stage j = .created) :
    race.stage j = .created ∨ j = i ∧ race.held = false := by
  rcases move_stage race i j with hsame | ⟨hthread, hnext⟩
  · exact .inl (hsame ▸ h)
  · rw [hnext] at h
    rcases Stage.next_eq_created.mp h with hwas | ⟨-, hfree⟩
    · exact .inl hwas
    · exact .inr ⟨hthread, hfree⟩

/-- Where the key was held at the opening, every request is refused at its
check. -/
theorem Sound.kept_move (h : race.Sound held) (i : ι) (hheld : held = true) :
    (race.move i).held = true ∧
      ∀ j, (race.move i).stage j = .waiting ∨ (race.move i).stage j = .refused := by
  obtain ⟨hkey, hstages⟩ := h.kept hheld
  refine ⟨move_held.mpr (.inl hkey), ?_⟩
  intro j
  rcases move_stage race i j with hsame | ⟨-, hnext⟩
  · rw [hsame]
    exact hstages j
  · right
    rw [hnext, hkey]
    rcases hstages j with hwaiting | hrefused
    · rw [hwaiting]
      rfl
    · rw [hrefused]
      rfl

/-- A held key has a holder: it was held at the opening, or somebody inserted. -/
theorem Sound.holder_move (h : race.Sound held) {i : ι} (hkey : (race.move i).held = true) :
    held = true ∨ ∃ j, (race.move i).stage j = .created := by
  by_cases hwas : race.held = true
  · rcases h.holder hwas with hheld | ⟨j, hcreated⟩
    · exact .inl hheld
    · exact .inr ⟨j, created_move hcreated⟩
  · have hpassed := (move_held.mp hkey).resolve_left hwas
    refine .inr ⟨i, ?_⟩
    rw [move_stage_self, hpassed, Bool.eq_false_iff.mpr hwas]
    rfl

/-- A stage that shows the key was taken is reached only where it is. -/
theorem Sound.holds_move (h : race.Sound held) {i j : ι}
    (hstage : (race.move i).stage j = .created ∨ (race.move i).stage j = .refused ∨
      (race.move i).stage j = .failed) : (race.move i).held = true := by
  rw [move_held]
  rcases move_stage race i j with hsame | ⟨rfl, hnext⟩
  · rw [hsame] at hstage
    exact .inl (h.holds j hstage)
  · by_cases hpassed : race.stage j = .passed
    · exact .inr hpassed
    · left
      by_cases hwaiting : race.stage j = .waiting
      · by_contra hfree
        rw [hnext, hwaiting, Bool.eq_false_iff.mpr hfree] at hstage
        simp [Stage.next] at hstage
      · rw [hnext, Stage.next_over ⟨hwaiting, hpassed⟩] at hstage
        exact h.holds j hstage

/-- Nobody creates a second time: who creates now found the key free. -/
theorem Sound.unique_move (h : race.Sound held) {i j k : ι}
    (hj : (race.move i).stage j = .created) (hk : (race.move i).stage k = .created) : j = k := by
  rcases created_of_move hj with hwasJ | ⟨hmoveJ, hfree⟩
  · rcases created_of_move hk with hwasK | ⟨-, hfree⟩
    · exact h.unique j k hwasJ hwasK
    · rw [h.holds j (.inl hwasJ)] at hfree
      cases hfree
  · rcases created_of_move hk with hwasK | ⟨hmoveK, -⟩
    · rw [h.holds k (.inl hwasK)] at hfree
      cases hfree
    · rw [hmoveJ, hmoveK]

/-- A move keeps what is known of the race: by whom the key is held, and that one request at
most has created a row. -/
theorem Sound.move (h : race.Sound held) (i : ι) : (race.move i).Sound held where
  kept := h.kept_move i
  holder := h.holder_move
  holds _ := h.holds_move
  unique _ _ := h.unique_move

/-- What is known of the race at its opening is known after any moves. -/
theorem sound_after (held : Bool) (moves : List ι) : ((opening held).after moves).Sound held := by
  induction moves with
  | nil => exact sound_opening held
  | cons i earlier ih => exact ih.move i

/-! ## Who fails -/

/-- Whoever moves next, a request that cannot insert any more stays one that cannot. -/
theorem inVain_move (h : (race.stage j).InVain) (i : ι) : ((race.move i).stage j).InVain := by
  rcases move_stage race i j with hsame | ⟨-, hnext⟩
  · rw [hsame]
    exact h
  · rw [hnext]
    exact h.next race.held

/-- A request that cannot insert any more stays so for the rest of the race. -/
theorem inVain_after {start : Race ι} {later earlier : List ι}
    (h : ((start.after earlier).stage j).InVain) : ((start.after (later ++ earlier)).stage j).InVain := by
  induction later with
  | nil => exact h
  | cons i later ih => exact inVain_move ih i

omit [DecidableEq ι] in
/-- Of two parties that look in vain, one fails once both are through. -/
theorem failed_of_two (h : race.Sound held) (hover : ∀ i, (race.stage i).Over) (hne : i ≠ j)
    (hi : (race.stage i).InVain) (hj : (race.stage j).InVain) : ∃ k, race.stage k = .failed := by
  rcases hi with hi | hi | hi
  · exact ((hover i).2 hi).elim
  · rcases hj with hj | hj | hj
    · exact ((hover j).2 hj).elim
    · exact (hne (h.unique i j hi hj)).elim
    · exact ⟨j, hj⟩
  · exact ⟨i, hi⟩

/-- At most one party is between its steps, and the key is free then; nobody fails. -/
structure Orderly (race : Race ι) : Prop where
  free : ∀ i, race.stage i = .passed → race.held = false
  sole : ∀ i j, race.stage i = .passed → race.stage j = .passed → i = j
  clean : ∀ i, race.stage i ≠ .failed

/-- Who stands between its two steps after a move stood there before, or has just looked and
found nothing. -/
theorem passed_of_move (h : (race.move i).stage j = .passed) :
    j ≠ i ∧ race.stage j = .passed ∨ j = i ∧ race.stage i = .waiting ∧ race.held = false := by
  by_cases hmoved : j = i
  · subst hmoved
    rw [move_stage_self] at h
    cases hstage : race.stage j <;> cases hheld : race.held <;> simp_all [Stage.next]
  · rw [move_stage_of_ne race hmoved] at h
    exact .inl ⟨hmoved, h⟩

/-- A request fails only by a move past its check, with the key held by then. -/
theorem failed_of_move (h : (race.move i).stage j = .failed) :
    race.stage j = .failed ∨ race.stage i = .passed ∧ race.held = true := by
  rcases move_stage race i j with hsame | ⟨rfl, hnext⟩
  · exact .inl (hsame ▸ h)
  · rw [hnext] at h
    cases hstage : race.stage j <;> cases hheld : race.held <;> simp_all [Stage.next]

/-- An orderly race stays orderly where nobody checks while another is past its
check. -/
theorem Orderly.move (h : race.Orderly)
    (hclear : race.stage i = .waiting → ∀ j, race.stage j ≠ .passed) : (race.move i).Orderly := by
  constructor
  · intro j hj
    rw [← Bool.not_eq_true, move_held, not_or, Bool.not_eq_true]
    rcases passed_of_move hj with ⟨hne, hpassed⟩ | ⟨-, hwaiting, hfree⟩
    · exact ⟨h.free j hpassed, fun hmover => hne (h.sole j i hpassed hmover)⟩
    · exact ⟨hfree, hclear hwaiting i⟩
  · intro j k hj hk
    rcases passed_of_move hj with ⟨-, hpassedJ⟩ | ⟨hmoveJ, hwaiting, -⟩
    · rcases passed_of_move hk with ⟨-, hpassedK⟩ | ⟨-, hwaiting, -⟩
      · exact h.sole j k hpassedJ hpassedK
      · exact (hclear hwaiting j hpassedJ).elim
    · rcases passed_of_move hk with ⟨-, hpassedK⟩ | ⟨hmoveK, -, -⟩
      · exact (hclear hwaiting k hpassedK).elim
      · rw [hmoveJ, hmoveK]
  · intro j hfailed
    rcases failed_of_move hfailed with hwas | ⟨hpassed, hkey⟩
    · exact h.clean j hwas
    · rw [h.free i hpassed] at hkey
      cases hkey

/-- A look beside a party between its steps leads to a failure. -/
theorem clear_of_clean {later earlier : List ι}
    (hover : ∀ k, (((opening held).after (later ++ i :: earlier)).stage k).Over)
    (hclean : ∀ k, ((opening held).after (later ++ i :: earlier)).stage k ≠ .failed) :
    Clear (opening held) earlier i := by
  intro hwaiting j hpassed
  have htwo : ∀ k, k ≠ j → (((opening held).after (i :: earlier)).stage k).InVain → False := by
    intro k hne hvain
    have hvainJ : (((opening held).after (i :: earlier)).stage j).InVain :=
      inVain_move (.inl hpassed) i
    obtain ⟨l, hfailed⟩ := failed_of_two (sound_after held _) hover hne (inVain_after hvain)
      (inVain_after hvainJ)
    exact hclean l hfailed
  have hsound := sound_after held earlier
  cases hkey : ((opening held).after earlier).held with
  | true =>
      rcases hsound.holder hkey with hheld | ⟨k, hcreated⟩
      · rcases (hsound.kept hheld).2 j with hstage | hstage <;> rw [hstage] at hpassed <;>
          cases hpassed
      · apply htwo k
        · rintro rfl
          rw [hcreated] at hpassed
          cases hpassed
        · exact inVain_move (.inr (.inl hcreated)) i
  | false =>
      apply htwo i
      · rintro rfl
        rw [hwaiting] at hpassed
        cases hpassed
      · left
        rw [after, move_stage_self, hwaiting, hkey]
        rfl

/-- **Nobody fails.**  Of parties that are all through, none has failed exactly
if none has looked while another was between its two steps. -/
theorem no_failure_iff (hover : ∀ i, (((opening held).after moves).stage i).Over) :
    (∀ i, ((opening held).after moves).stage i ≠ .failed) ↔
      Trace.Run (Clear (opening held)) moves := by
  constructor
  · intro hclean
    have hsuffix : ∀ earlier, earlier <:+ moves → Trace.Run (Clear (opening held)) earlier := by
      intro earlier
      induction earlier with
      | nil => exact fun _ => .start
      | cons i earlier ih =>
          intro hpart
          obtain ⟨later, rfl⟩ := hpart
          exact .next (ih ((List.suffix_cons i earlier).trans (List.suffix_append _ _)))
            (clear_of_clean hover hclean)
    exact hsuffix moves List.suffix_rfl
  · intro hrun
    have hstart : (opening held : Race ι).Orderly := by
      constructor <;> simp [opening]
    have horderly : ((opening held).after moves).Orderly :=
      @Trace.Run.invariant ι _ moves (fun moves => ((opening held).after moves).Orderly) hrun hstart
        fun earlier i _ hinv hclear => hinv.move hclear
    exact horderly.clean

/-- How a race ends well: whoever does not take the key is refused. -/
theorem settled_of_clean [Nonempty ι] (hover : ∀ i, (((opening held).after moves).stage i).Over)
    (hclean : ∀ i, ((opening held).after moves).stage i ≠ .failed) :
    (held = true → ∀ i, ((opening held).after moves).stage i = .refused) ∧
      (held = false → ∃ c, ((opening held).after moves).stage c = .created ∧
        ∀ i, i ≠ c → ((opening held).after moves).stage i = .refused) := by
  have hsound := sound_after held moves
  have hend : ∀ i, ((opening held).after moves).stage i = .created ∨
      ((opening held).after moves).stage i = .refused := by
    intro i
    cases hstage : ((opening held).after moves).stage i with
    | waiting => exact ((hover i).1 hstage).elim
    | passed => exact ((hover i).2 hstage).elim
    | created => exact .inl rfl
    | refused => exact .inr rfl
    | failed => exact (hclean i hstage).elim
  constructor
  · intro hheld i
    rcases (hsound.kept hheld).2 i with hwaiting | hrefused
    · exact ((hover i).1 hwaiting).elim
    · exact hrefused
  · intro hfree
    obtain ⟨i⟩ := ‹Nonempty ι›
    have hkey : ((opening held).after moves).held = true := by
      rcases hend i with hcreated | hrefused
      · exact hsound.holds i (.inl hcreated)
      · exact hsound.holds i (.inr (.inl hrefused))
    rcases hsound.holder hkey with hheld | ⟨c, hcreated⟩
    · rw [hfree] at hheld
      cases hheld
    · refine ⟨c, hcreated, fun j hne => ?_⟩
      exact (hend j).resolve_left fun hj => hne (hsound.unique j c hj hcreated)

end Race

end KeyRace
